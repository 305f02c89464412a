import ExprCompiler.Proofs.Token.Recognition

/-!
# Lexemes

How a source text falls into tokens, and why the text of an operand is read as the same operand
again wherever it stands:

* `Lexer.Cuts`: characters are cut into tokens, one after the other;
* `Lexer.Cuts.loop`, `cuts_tokenize`: reading takes a turn for each of these tokens and comes to its end;
* `Token.IsScanned`: a token as reading makes it, which every token of a source text is
  (`isScanned_of_mem_tokenize`);
* `Token.IsScanned.exists_entry`: operators are written as the table says;
* `Lexer.Begins.scan_eq`, `Lexer.scan_congr_rest`: what a token takes depends on its first character, the
  operator that stands there, and how long its blanks or its operand are;
* `Token.IsScanned.rereads`: an operand is read again, in any context, if what follows cannot become
  part of it. Of a string it needs that the string is terminated.
-/

namespace ExprCompiler

namespace Lexer

/-! ## Cutting tokens off -/

/-- From the context, the characters are cut into the tokens, which lead to the last context. -/
inductive Cuts : Context → Nat → List Char → List Token → Context → Prop
  | nil {context : Context} {offset : Nat} : Cuts context offset [] [] context
  | cons {context last : Context} {offset : Nat} {c : Char} {cs : List Char} {tokens : List Token} :
      Cuts (context.next (token context offset c cs).kind)
        (offset + (token context offset c cs).text.utf8ByteSize)
        (cs.drop (scan context c cs).2) tokens last →
      Cuts context offset (c :: cs) (token context offset c cs :: tokens) last

/-- Characters can be cut from every context. -/
theorem exists_cuts (context : Context) (offset : Nat) (cs : List Char) :
    ∃ tokens last, Cuts context offset cs tokens last := by
  induction h : cs.length using Nat.strongRecOn generalizing context offset cs with
  | ind n ih =>
    cases cs with
    | nil => exact ⟨[], context, .nil⟩
    | cons c cs =>
      have shorter : (cs.drop (scan context c cs).2).length < n := by
        simp only [← h, List.length_drop, List.length_cons]
        omega
      obtain ⟨tokens, last, behind⟩ := ih _ shorter _ _ _ rfl
      exact ⟨_, last, .cons behind⟩

/-- A token and what it leaves have the bytes of all. -/
theorem size_token_add (context : Context) (offset : Nat) (c : Char) (cs : List Char) :
    (token context offset c cs).text.utf8ByteSize + size (cs.drop (scan context c cs).2) =
      size (c :: cs) := by
  have text : (token context offset c cs).text.utf8ByteSize = size (c :: cs.take (scan context c cs).2) :=
    rfl
  rw [text, ← size_append, List.cons_append, List.take_append_drop]

/-- The loop takes a turn for each token that is cut off. -/
theorem Cuts.loop {context last : Context} {offset : Nat} {cs : List Char} {tokens : List Token}
    (h : Cuts context offset cs tokens last) (before : Array Token) :
    Loop (offset + size cs) ⟨context, offset, cs, before⟩
      ⟨last, offset + size cs, [], before ++ tokens.toArray⟩ tokens.length := by
  induction h generalizing before with
  | nil =>
    rw [size_nil, Nat.add_zero, Array.append_empty]
    exact .done (Nat.le_refl _)
  | @cons context last offset c cs tokens _ ih =>
    have inside : offset < offset + size (c :: cs) :=
      Nat.lt_add_of_pos_right (size_pos c cs)
    refine .turn inside (step_cons context offset c cs before) ?_
    have behind := ih (before.push (token context offset c cs))
    rw [Nat.add_assoc, size_token_add] at behind
    simpa using behind

section ReadFrom

variable {context last : Context} {source : String} {tokens : List Token}

theorem Cuts.loop_start (h : Cuts context 0 source.toList tokens last) :
    Loop source.utf8ByteSize (.start context source) ⟨last, source.utf8ByteSize, [], tokens.toArray⟩
      tokens.length := by
  have loop := h.loop #[]
  rw [Nat.zero_add, size_toList, Array.empty_append] at loop
  exact loop

/-- Reading a text comes to its end, with the tokens that the text is cut into. -/
theorem readFrom_of_cuts (h : Cuts context 0 source.toList tokens last) :
    readFrom context source = .ok ⟨last, source.utf8ByteSize, [], tokens.toArray⟩ :=
  h.loop_start.run_eq

theorem tokenizeFrom_of_cuts (h : Cuts context 0 source.toList tokens last) :
    tokenizeFrom context source = tokens := by
  rw [tokenizeFrom, readFrom_of_cuts h]

/-- The tokens of a text that is read from the context are what its characters are cut into. -/
theorem cuts_tokenizeFrom (context : Context) (source : String) :
    ∃ last, Cuts context 0 source.toList (tokenizeFrom context source) last := by
  obtain ⟨tokens, last, cuts⟩ := exists_cuts context 0 source.toList
  exact ⟨last, (tokenizeFrom_of_cuts cuts).symm ▸ cuts⟩

end ReadFrom

end Lexer

/-- The tokens of a source text are what its characters are cut into. -/
theorem cuts_tokenize (source : String) :
    ∃ last, Lexer.Cuts .initial 0 source.toList (tokenize source) last :=
  Lexer.cuts_tokenizeFrom .initial source

/-- A token as reading makes it. -/
def Token.IsScanned (token : Token) : Prop :=
  ∃ context offset c cs, token = Lexer.token context offset c cs

theorem Lexer.Cuts.isScanned {context last : Context} {offset : Nat} {cs : List Char}
    {tokens : List Token} (h : Cuts context offset cs tokens last) :
    ∀ token ∈ tokens, token.IsScanned := by
  induction h with
  | nil => nofun
  | cons _ ih => exact List.forall_mem_cons.2 ⟨⟨_, _, _, _, rfl⟩, ih⟩

theorem isScanned_of_mem_tokenize {source : String} {token : Token}
    (mem : token ∈ tokenize source) : token.IsScanned := by
  obtain ⟨last, cuts⟩ := cuts_tokenize source
  exact cuts.isScanned token mem

/-! ## Operators and square brackets -/

theorem Lexer.scan_opening (context : Context) (cs : List Char) :
    scan context '[' cs = (if context.followsData then .callOpen else .arrayOpen, 0) :=
  rfl

theorem Lexer.scan_closing (context : Context) (cs : List Char) : scan context ']' cs =
    (if context.brackets.head? = some .call then .callClose else .arrayClose, 0) :=
  rfl

/-- Kinds of tokens that are read otherwise behind an operand: operators and opening brackets. -/
def Kind.isAmbiguous : Kind → Bool
  | operator | unaryOperator | callOpen | arrayOpen => true
  | _ => false

/-- Operators and opening brackets are of the ambiguous kinds. -/
theorem Lexer.leading?_or_of_isAmbiguous {context : Context} {c : Char} {cs : List Char}
    (ambiguous : (scan context c cs).1.isAmbiguous = true) :
    (∃ op, Operator.leading? (c :: cs) = some op) ∨ c = '[' := by
  cases leading : Operator.leading? (c :: cs) with
  | some op => exact .inl ⟨op, rfl⟩
  | none =>
    refine .inr ?_
    simp only [scan, leading] at ambiguous
    split at ambiguous
    · cases ambiguous
    split at ambiguous
    · cases ambiguous
    split at ambiguous
    · cases ambiguous
    split at ambiguous
    · cases ambiguous
    split at ambiguous
    · cases ambiguous
    simp only [single] at ambiguous
    split at ambiguous
    case h_2 => rfl
    case h_3 => split at ambiguous <;> cases ambiguous
    all_goals cases ambiguous

/-- An operator is written as the table says. -/
theorem Token.IsScanned.exists_entry {token : Token} (scanned : token.IsScanned)
    (operator : token.kind.isOperator = true) : ∃ entry ∈ Operator.table, token.text = entry.symbol := by
  obtain ⟨context, offset, c, cs, rfl⟩ := scanned
  simp only [Lexer.token] at operator ⊢
  have ambiguous : (Lexer.scan context c cs).1.isAmbiguous = true := by
    cases kind : (Lexer.scan context c cs).1 <;> rw [kind] at operator <;> first | rfl | cases operator
  obtain ⟨entry, leading⟩ | rfl := Lexer.leading?_or_of_isAmbiguous ambiguous
  · have taken : c :: cs.take (Lexer.scan context c cs).2 = entry.symbol.toList := by
      simp only [Lexer.scan, leading]
      exact Operator.take_of_leading? leading
    exact ⟨entry, List.mem_of_find?_eq_some leading, by rw [taken, String.ofList_toList]⟩
  · rw [Lexer.scan_opening] at operator
    simp only at operator
    split at operator <;> cases operator

/-! ## Operands -/

namespace Lexer

/-- The characters that begin an operand, by its kind. -/
inductive Begins : Kind → Char → Prop
  | number {c : Char} : c.isDigit = true → Begins .number c
  | string : Begins .string '"'
  | word {c : Char} : c.isDigit = false → c.isAlpha = true → Begins .word c
  | placeholder : Begins .placeholder '_'

/-- How many characters an operand takes after its first one. -/
def operandLength : Kind → List Char → Nat
  | .number, cs => (cs.takeWhile isNumberPart).length
  | .string, cs => stringLength 0 cs
  | .word, cs => (cs.takeWhile isWordPart).length
  | .placeholder, cs => placeholderLength cs
  | _, _ => 0

/-- The first characters of operands. -/
def isOperandStart (c : Char) : Bool :=
  c.isAlphanum || c = '"' || c = '_'

theorem Begins.isOperandStart {kind : Kind} {c : Char} (h : Begins kind c) :
    isOperandStart c = true := by
  cases h with
  | number digit => simp [Lexer.isOperandStart, Char.isAlphanum, digit]
  | word _ alpha => simp [Lexer.isOperandStart, Char.isAlphanum, alpha]
  | string | placeholder => rfl

theorem Begins.isData {kind : Kind} {c : Char} (h : Begins kind c) : kind.isData = true := by
  cases h <;> rfl

theorem Begins.not_isBlank {kind : Kind} {c : Char} (h : Begins kind c) : isBlank c = false := by
  rw [Bool.eq_false_iff]
  intro blank
  simp only [isBlank, Bool.or_eq_true, decide_eq_true_eq] at blank
  have start := h.isOperandStart
  obtain (((((rfl | rfl) | rfl) | rfl) | rfl) | rfl) := blank <;> exact absurd start (by decide)

/-- No operator begins like an operand. -/
theorem Begins.leading?_eq_none {kind : Kind} {c : Char} (h : Begins kind c) (cs : List Char) :
    Operator.leading? (c :: cs) = none := by
  have all : ∀ op ∈ Operator.table,
      ∃ d ds, op.symbol.toList = d :: ds ∧ Lexer.isOperandStart d = false := by
    simp [Operator.table]
    decide
  rw [Operator.leading?, List.find?_eq_none]
  intro op mem isPrefix
  obtain ⟨d, ds, symbol, start⟩ := all op mem
  rw [symbol, List.isPrefixOf_cons_cons, Bool.and_eq_true, beq_iff_eq] at isPrefix
  rw [isPrefix.1, h.isOperandStart] at start
  cases start

/-- An operand is scanned by how it begins, in any context. -/
theorem Begins.scan_eq {kind : Kind} {c : Char} (h : Begins kind c) (context : Context)
    (cs : List Char) : scan context c cs = (kind, operandLength kind cs) := by
  simp only [scan, h.leading?_eq_none, h.not_isBlank]
  cases h with
  | number digit => simp [digit, operandLength]
  | string => rfl
  | word digit alpha =>
    have quote : c ≠ '"' := by
      rintro rfl
      cases alpha
    simp [digit, quote, alpha, operandLength]
  | placeholder => rfl

/-- What is scanned as an operand begins like one. -/
theorem begins_of_isData {context : Context} {c : Char} {cs : List Char}
    (data : (scan context c cs).1.isData = true) : Begins (scan context c cs).1 c := by
  simp only [scan] at data ⊢
  split at data
  · split at data <;> cases data
  split at data
  · cases data
  split at data
  · rename_i digit
    simpa [*] using Begins.number digit
  split at data
  · rename_i quote
    subst quote
    simpa [*] using Begins.string
  split at data
  · rename_i digit _ alpha
    simpa [*] using Begins.word (Bool.eq_false_iff.2 digit) alpha
  split at data
  · rename_i underscore
    subst underscore
    simpa [*] using Begins.placeholder
  · simp only [single] at data
    split at data <;> first | cases data | (split at data <;> cases data)

/-- A token is scanned alike in front of other characters, if the same operator stands there or none,
and its blanks or its operand are as long. -/
theorem scan_congr_rest {c : Char} {cs cs' : List Char}
    (leading : Operator.leading? (c :: cs') = Operator.leading? (c :: cs))
    (blanks : isBlank c = true → (cs'.takeWhile isBlank).length = (cs.takeWhile isBlank).length)
    (operand : ∀ kind, Begins kind c → operandLength kind cs' = operandLength kind cs)
    (context : Context) : scan context c cs' = scan context c cs := by
  simp only [scan, leading]
  split
  · rfl
  split
  · rename_i blank
    rw [blanks blank]
  split
  · rename_i digit
    exact congrArg (Prod.mk _) (operand .number (.number digit))
  split
  · rename_i quote
    subst quote
    exact congrArg (Prod.mk _) (operand .string .string)
  split
  · rename_i digit _ alpha
    exact congrArg (Prod.mk _) (operand .word (.word (Bool.eq_false_iff.2 digit) alpha))
  split
  · rename_i underscore
    subst underscore
    exact congrArg (Prod.mk _) (operand .placeholder .placeholder)
  · rfl

/-- The rest does not go on with anything that a number, a word or a placeholder could take. -/
def Apart (rest : List Char) : Prop :=
  ∀ c ∈ rest.head?, isWordPart c = false ∧ c ≠ '.'

/-- The characters after an opening quote end with the first quote that no backslash precedes. -/
def isClosed : List Char → Bool
  | [] => false
  | '"' :: cs => cs.isEmpty
  | ['\\'] => false
  | '\\' :: _ :: cs => isClosed cs
  | _ :: cs => isClosed cs

theorem isClosed_cons {c : Char} (quote : c ≠ '"') (backslash : c ≠ '\\') (cs : List Char) :
    isClosed (c :: cs) = isClosed cs := by
  rw [isClosed]
  · exact quote
  · exact fun escape => absurd escape backslash
  · exact fun _ _ escape => absurd escape backslash

/-- A string that is closed is read to its end. -/
theorem stringLength_append {cs : List Char} (closed : isClosed cs = true) (taken : Nat)
    (rest : List Char) : stringLength taken (cs ++ rest) = taken + cs.length := by
  fun_induction isClosed cs generalizing taken with
  | case1 => cases closed
  | case2 cs =>
    rw [List.isEmpty_iff.1 closed]
    rfl
  | case3 => cases closed
  | case4 c cs ih =>
    rw [List.cons_append, List.cons_append, stringLength, ih closed, List.length_cons,
      List.length_cons]
    omega
  | case5 c cs notQuote notLast notEscape ih =>
    rw [List.cons_append, stringLength_cons notQuote (ne_backslash notLast notEscape), ih closed,
      List.length_cons]
    omega

theorem placeholderLength_append {underscores digits rest : List Char}
    (hu : ∀ c ∈ underscores, c = '_') (hd : ∀ c ∈ digits, c.isDigit = true) (apart : Apart rest) :
    placeholderLength (underscores ++ (digits ++ rest)) = underscores.length + digits.length := by
  have stop : ∀ c ∈ (digits ++ rest).head?, ¬ decide (c = '_') = true := by
    intro c mem
    rw [decide_eq_true_eq]
    rintro rfl
    cases digits with
    | nil => exact absurd (apart _ mem).1 (by decide)
    | cons d ds =>
      cases mem
      exact absurd (hd _ List.mem_cons_self) (by decide)
  have stopDigits : ∀ c ∈ rest.head?, ¬ c.isDigit = true := by
    intro c mem
    have part := (apart c mem).1
    simp only [isWordPart, Char.isAlphanum, Bool.or_eq_false_iff] at part
    exact Bool.eq_false_iff.1 part.1.2
  obtain ⟨first, after⟩ := Run.span_append (by simpa using hu) stop
  rw [placeholderLength, first, after, (Run.span_append hd stopDigits).1]

/-- An operand takes as much again before anything that it stands apart from. -/
theorem operandLength_append (kind : Kind) (cs : List Char) {rest : List Char} (apart : Apart rest)
    (closed : kind = .string → isClosed (cs.take (operandLength kind cs)) = true) :
    operandLength kind (cs.take (operandLength kind cs) ++ rest) =
      (cs.take (operandLength kind cs)).length := by
  have again {p : Char → Bool} (stop : ∀ c ∈ rest.head?, ¬ p c = true) :
      ((cs.take (cs.takeWhile p).length ++ rest).takeWhile p).length =
        (cs.take (cs.takeWhile p).length).length := by
    rw [← List.prefix_iff_eq_take.1 (List.takeWhile_prefix p),
      (Run.span_append (List.all_eq_true.1 List.all_takeWhile) stop).1]
  cases kind with
  | number =>
    refine again fun c mem => ?_
    obtain ⟨part, dot⟩ := apart c mem
    simp only [isWordPart, Char.isAlphanum, Bool.or_eq_false_iff] at part
    simp [isNumberPart, part.1.2, dot]
  | word => exact again fun c mem => Bool.eq_false_iff.1 (apart c mem).1
  | string => exact (stringLength_append (closed rfl) 0 rest).trans (Nat.zero_add _)
  | placeholder =>
    simp only [operandLength, take_placeholderLength, List.append_assoc, List.length_append]
    refine placeholderLength_append ?_ (List.all_eq_true.1 List.all_takeWhile) apart
    simpa using List.all_eq_true.1 (List.all_takeWhile (p := (· = '_')) (l := cs))
  | _ => rfl

end Lexer

/-- Strings have their closing quote. -/
def Token.isTerminated (token : Token) : Bool :=
  token.kind ≠ .string || Lexer.isClosed token.text.toList.tail

/-- The token is an operand, and scanned again wherever its text stands apart from what follows. -/
structure Token.Rereads (token : Token) (c : Char) (cs : List Char) : Prop where
  text : token.text.toList = c :: cs
  begins : Lexer.Begins token.kind c
  length {rest : List Char} : Lexer.Apart rest →
    Lexer.operandLength token.kind (cs ++ rest) = cs.length

/-- Operands that reading makes are read again. -/
theorem Token.IsScanned.rereads {token : Token} (scanned : token.IsScanned)
    (data : token.kind.isData = true) (terminated : token.isTerminated = true) :
    ∃ c cs, token.Rereads c cs := by
  obtain ⟨context, offset, c, cs, rfl⟩ := scanned
  have begins := Lexer.begins_of_isData data
  have length : (Lexer.scan context c cs).2 = Lexer.operandLength (Lexer.scan context c cs).1 cs := by
    rw [begins.scan_eq context cs]
  refine ⟨c, cs.take (Lexer.scan context c cs).2, String.toList_ofList, begins, fun apart => ?_⟩
  have closed (string : (Lexer.scan context c cs).1 = .string) :
      Lexer.isClosed (cs.take (Lexer.scan context c cs).2) = true := by
    simpa [Token.isTerminated, Lexer.token, string] using terminated
  rw [length] at closed ⊢
  exact Lexer.operandLength_append _ cs apart closed

end ExprCompiler
