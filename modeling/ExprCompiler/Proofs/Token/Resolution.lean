import ExprCompiler.Proofs.Token.Printing

/-!
# What the context decides, and where tokens end

Some characters are read by what stands before them, and every token takes all that it can:

* `Lexer.scan_cases`: the four ways to scan a token;
* `Lexer.Context.Admits`, `Lexer.admits_scan`: the kinds that a context leaves open to a token;
* `Lexer.Paired`, `Lexer.Cuts.paired`: square brackets close what they are read with, on one stack;
* `Kind.spells`, `Lexer.maximal_token`: numbers, words, placeholders and blanks cannot go on;
* `Lexer.Cuts.exists_token`: every token is scanned in the context that the tokens before it lead to;
* `tokenize_resolved`: all of this holds of every token of a source text.
-/

namespace ExprCompiler

namespace Lexer

/-! ## The ways to scan a token -/

/-- A token is an operator of the table, blanks, an operand, or a character by itself. -/
theorem scan_cases (context : Context) (c : Char) (cs : List Char) :
    (∃ op ∈ Operator.table, scan context c cs =
      (if context.followsData then .operator else .unaryOperator, op.symbol.toList.length - 1)) ∨
    (isBlank c = true ∧ scan context c cs = (.whitespace, (cs.takeWhile isBlank).length)) ∨
    (∃ kind, Begins kind c ∧ scan context c cs = (kind, operandLength kind cs)) ∨
    scan context c cs = (single context c, 0) := by
  cases leading : Operator.leading? (c :: cs) with
  | some op => exact .inl ⟨op, List.mem_of_find?_eq_some leading, by simp only [scan, leading]⟩
  | none =>
    by_cases blank : isBlank c = true
    · exact .inr (.inl ⟨blank, scan_of_isBlank blank context cs⟩)
    by_cases data : (scan context c cs).1.isData = true
    · have begins := begins_of_isData data
      exact .inr (.inr (.inl ⟨_, begins, begins.scan_eq context cs⟩))
    · refine .inr (.inr (.inr ?_))
      -- The tests for the kinds of operands have all failed.
      simp only [scan, leading] at data ⊢
      rw [if_neg blank] at data ⊢
      split at data <;> [exact absurd rfl data; rename_i digit]
      split at data <;> [exact absurd rfl data; rename_i quote]
      split at data <;> [exact absurd rfl data; rename_i alpha]
      split at data <;> [exact absurd rfl data; rename_i underscore]
      rw [if_neg digit, if_neg quote, if_neg alpha, if_neg underscore]

/-- The kinds that the context leaves open to a token. -/
def Context.Admits (context : Context) : Kind → Prop
  | .operator | .callOpen => context.followsData = true
  | .unaryOperator | .arrayOpen => context.followsData = false
  | .callClose => context.brackets.head? = some .call
  | .arrayClose => context.brackets.head? ≠ some .call
  | _ => True

theorem admits_scan (context : Context) (c : Char) (cs : List Char) :
    context.Admits (scan context c cs).1 := by
  rcases scan_cases context c cs with ⟨op, -, scans⟩ | ⟨-, scans⟩ | ⟨kind, begins, scans⟩ | scans
  · rw [scans]
    cases data : context.followsData <;> exact data
  · rw [scans]
    trivial
  · rw [scans]
    cases begins <;> trivial
  · rw [scans]
    show context.Admits (single context c)
    unfold single
    split
    case h_2 => cases data : context.followsData <;> exact data
    case h_3 =>
      by_cases call : context.brackets.head? = some .call
      · rw [if_pos call]
        exact call
      · rw [if_neg call]
        exact call
    all_goals trivial

/-- Brackets are opened by their character alone. -/
theorem text_eq_opening_iff (context : Context) (offset : Nat) (c : Char) (cs : List Char) :
    (token context offset c cs).text = "[" ↔
      (token context offset c cs).kind = .callOpen ∨ (token context offset c cs).kind = .arrayOpen := by
  constructor
  · intro text
    have chars := congrArg String.toList text
    rw [token, String.toList_ofList] at chars
    obtain ⟨rfl, -⟩ := List.cons.inj chars
    show (scan context '[' cs).1 = _ ∨ (scan context '[' cs).1 = _
    rw [scan_opening]
    cases context.followsData
    · exact .inr rfl
    · exact .inl rfl
  · intro kind
    have ambiguous : (scan context c cs).1.isAmbiguous = true := by
      rcases kind with kind | kind <;> rw [show (scan context c cs).1 = _ from kind] <;> rfl
    obtain ⟨op, leading⟩ | rfl := leading?_or_of_isAmbiguous ambiguous
    · simp only [token, scan, leading] at kind
      split at kind <;> rcases kind with kind | kind <;> cases kind
    · rw [token, scan_opening]
      rfl

end Lexer

/-! ## Square brackets on one stack -/

/-- Kinds of square brackets. -/
def Kind.isSquare : Kind → Bool
  | callOpen | arrayOpen | callClose | arrayClose => true
  | _ => false

namespace Lexer

/-- The tokens read with a stack of open square brackets, the innermost first: a call's bracket closes
a call, an array's bracket an array, or nothing where nothing is open. -/
inductive Paired : List Kind → List Token → Prop
  | nil {opened : List Kind} : Paired opened []
  | opening {opened : List Kind} {token : Token} {tokens : List Token} :
      token.kind = .callOpen ∨ token.kind = .arrayOpen → Paired (token.kind :: opened) tokens →
      Paired opened (token :: tokens)
  | call {opened : List Kind} {token : Token} {tokens : List Token} : token.kind = .callClose →
      Paired opened tokens → Paired (.callOpen :: opened) (token :: tokens)
  | array {opened : List Kind} {token : Token} {tokens : List Token} : token.kind = .arrayClose →
      Paired opened tokens → Paired (.arrayOpen :: opened) (token :: tokens)
  | unopened {token : Token} {tokens : List Token} : token.kind = .arrayClose →
      Paired [] tokens → Paired [] (token :: tokens)
  | plain {opened : List Kind} {token : Token} {tokens : List Token} : token.kind.isSquare = false →
      Paired opened tokens → Paired opened (token :: tokens)

/-- A token of a kind that the context admits is read with the brackets of the context. -/
theorem Paired.cons {context : Context} {token : Token} {tokens : List Token}
    (admits : context.Admits token.kind)
    (h : Paired ((context.next token.kind).brackets.map Bracket.opener) tokens) :
    Paired (context.brackets.map Bracket.opener) (token :: tokens) := by
  cases kind : token.kind <;> rw [kind] at h admits
  case callOpen | arrayOpen => exact .opening (by simp [kind]) (by rw [kind]; exact h)
  case callClose =>
    obtain ⟨outer, brackets⟩ := List.head?_eq_some_iff.1 admits
    rw [Context.next, Context.bracketsAfter, brackets] at h
    rw [brackets]
    exact .call kind h
  case arrayClose =>
    rw [Context.next, Context.bracketsAfter] at h
    cases brackets : context.brackets with
    | nil =>
      rw [brackets] at h
      exact .unopened kind h
    | cons innermost outer =>
      rw [brackets] at h
      cases innermost with
      | call => exact absurd (congrArg List.head? brackets) admits
      | array => exact .array kind h
  all_goals exact .plain (by rw [kind]; rfl) h

theorem Cuts.paired {context last : Context} {offset : Nat} {cs : List Char} {tokens : List Token}
    (h : Cuts context offset cs tokens last) : Paired (context.brackets.map Bracket.opener) tokens := by
  induction h with
  | nil => exact .nil
  | cons _ ih => exact .cons (admits_scan ..) ih

end Lexer

/-! ## Where tokens end -/

/-- The texts that tokens of a kind have, blanks included. -/
def Kind.spells : Kind → List Char → Bool
  | .whitespace, text => !text.isEmpty && text.all Lexer.isBlank
  | kind, text => kind.isText text

/-- Kinds of tokens that take characters as long as they can. -/
def Kind.isSpan : Kind → Bool
  | number | word | placeholder | whitespace => true
  | _ => false

namespace Lexer

section Span

variable {p : Char → Bool} {cs : List Char}

theorem take_length_takeWhile : cs.take (cs.takeWhile p).length = cs.takeWhile p :=
  (List.prefix_iff_eq_take.1 (List.takeWhile_prefix p)).symm

theorem drop_length_takeWhile : cs.drop (cs.takeWhile p).length = cs.dropWhile p := by
  have split := @List.drop_left _ (cs.takeWhile p) (cs.dropWhile p)
  rwa [List.takeWhile_append_dropWhile] at split

theorem not_of_mem_head?_dropWhile {next : Char} (h : next ∈ (cs.dropWhile p).head?) : p next = false := by
  have stops := List.head?_dropWhile_not p cs
  rw [Option.mem_def.1 h] at stops
  exact stops

/-- One character outside of a class is enough. -/
theorem all_append_eq_false {text : List Char} {next : Char} (h : p next = false) :
    (text ++ [next]).all p = false := by
  rw [List.all_append, List.all_cons, h, Bool.false_and, Bool.and_false]

end Span

/-- The text is one of the kind, and with the character behind it it is none. -/
def Maximal (kind : Kind) (text rest : List Char) : Prop :=
  kind.spells text = true ∧ ∀ next ∈ rest.head?, kind.spells (text ++ [next]) = false

/-- Tokens that are spelled with characters of one class take all of the class. -/
theorem maximal_span {kind : Kind} {p : Char → Bool} {c : Char} (starts : p c = true)
    (spells : ∀ text, kind.spells (c :: text) = (c :: text).all p) (cs : List Char) :
    Maximal kind (c :: cs.take (cs.takeWhile p).length) (cs.drop (cs.takeWhile p).length) := by
  rw [take_length_takeWhile, drop_length_takeWhile]
  refine ⟨?_, fun next mem => ?_⟩
  · rw [spells, List.all_cons, starts, List.all_takeWhile]
    rfl
  · rw [List.cons_append, spells, ← List.cons_append]
    exact all_append_eq_false (not_of_mem_head?_dropWhile mem)

/-- A placeholder takes underscores, then digits. Another underscore behind digits begins the next
placeholder. -/
theorem maximal_placeholder (cs : List Char) :
    Maximal .placeholder
      ('_' :: (cs.takeWhile (· = '_') ++ (cs.dropWhile (· = '_')).takeWhile Char.isDigit))
      ((cs.dropWhile (· = '_')).dropWhile Char.isDigit) := by
  have underscores : ∀ c ∈ '_' :: cs.takeWhile (· = '_'), decide (c = '_') = true :=
    List.forall_mem_cons.2 ⟨rfl, List.all_eq_true.1 List.all_takeWhile⟩
  -- What stands behind the underscores begins with none, so it has to be digits.
  have index {text : List Char} (h : text <+: cs.dropWhile (· = '_')) :
      Kind.spells .placeholder ('_' :: (cs.takeWhile (· = '_') ++ text)) = text.all Char.isDigit := by
    have stop : ∀ c ∈ text.head?, ¬ decide (c = '_') = true := by
      intro c mem
      obtain ⟨rest, split⟩ := h
      have first : c ∈ (cs.dropWhile (· = '_')).head? := by
        rw [← split, List.head?_append, Option.mem_def.1 mem]
        rfl
      exact Bool.eq_false_iff.1 (not_of_mem_head?_dropWhile first)
    show (decide (some '_' = some '_') &&
      (('_' :: cs.takeWhile (· = '_') ++ text).dropWhile (· = '_')).all Char.isDigit) = _
    rw [(Run.span_append underscores stop).2]
    rfl
  refine ⟨?_, fun next mem => ?_⟩
  · rw [index (List.takeWhile_prefix _), List.all_takeWhile]
  · obtain ⟨rest, behind⟩ := List.head?_eq_some_iff.1 mem
    have longer : (cs.dropWhile (· = '_')).takeWhile Char.isDigit ++ [next] <+: cs.dropWhile (· = '_') := by
      refine ⟨rest, ?_⟩
      rw [List.append_assoc, List.singleton_append, ← behind, List.takeWhile_append_dropWhile]
    rw [List.cons_append, List.append_assoc, index longer]
    exact all_append_eq_false (not_of_mem_head?_dropWhile mem)

/-- What a placeholder leaves of the characters. -/
theorem drop_placeholderLength (cs : List Char) :
    cs.drop (placeholderLength cs) = (cs.dropWhile (· = '_')).dropWhile Char.isDigit := by
  rw [placeholderLength, ← List.drop_drop, drop_length_takeWhile, drop_length_takeWhile]

/-- Numbers, words, placeholders and blanks take all that they can. -/
theorem maximal_token (context : Context) (offset : Nat) (c : Char) (cs : List Char)
    (span : (token context offset c cs).kind.isSpan = true) :
    Maximal (token context offset c cs).kind (token context offset c cs).text.toList
      (cs.drop (scan context c cs).2) := by
  rw [token, String.toList_ofList]
  simp only [token] at span
  rcases scan_cases context c cs with ⟨op, -, scans⟩ | ⟨blank, scans⟩ | ⟨kind, begins, scans⟩ | scans
  · rw [scans] at span
    simp only at span
    split at span <;> cases span
  · rw [scans]
    exact maximal_span blank (fun _ => rfl) cs
  · rw [scans] at span ⊢
    cases begins with
    | number digit =>
      refine maximal_span (by simp [isNumberPart, digit]) (fun text => ?_) cs
      show (c.isDigit && (c :: text).all isNumberPart) = _
      rw [digit, Bool.true_and]
    | word _ alpha =>
      refine maximal_span (by simp [isWordPart, Char.isAlphanum, alpha]) (fun text => ?_) cs
      show (c.isAlpha && (c :: text).all isWordPart) = _
      rw [alpha, Bool.true_and]
    | placeholder =>
      simp only [operandLength]
      rw [take_placeholderLength, drop_placeholderLength]
      exact maximal_placeholder cs
    | string => cases span
  · rw [scans] at span
    simp only [single] at span
    split at span <;> first | cases span | (split at span <;> cases span)

/-- A string ends with its first closing quote, or has none and goes on to the end of the text. -/
def Quoted (text rest : List Char) : Prop :=
  text.head? = some '"' ∧
    (isClosed text.tail = true ∨ rest = [] ∧ ∀ part, part <+: text.tail → isClosed part = false)

theorem quoted_token (context : Context) (offset : Nat) (c : Char) (cs : List Char)
    (string : (token context offset c cs).kind = .string) :
    Quoted (token context offset c cs).text.toList (cs.drop (scan context c cs).2) := by
  have kind : (scan context c cs).1 = .string := string
  have begins := begins_of_isData (show (scan context c cs).1.isData = true by rw [kind]; rfl)
  have scans := begins.scan_eq context cs
  rw [kind] at begins scans
  rw [token, String.toList_ofList, scans]
  cases begins
  refine ⟨rfl, ?_⟩
  show isClosed (cs.take (stringLength 0 cs)) = true ∨ cs.drop (stringLength 0 cs) = [] ∧
    ∀ part, part <+: cs.take (stringLength 0 cs) → isClosed part = false
  by_cases closed : isClosed (cs.take (stringLength 0 cs)) = true
  · exact .inl closed
  · have all := (isClosed_or cs).resolve_left closed
    refine .inr ⟨by rw [all, List.drop_length], fun part isPrefix => ?_⟩
    rw [all, List.take_length] at closed isPrefix
    obtain ⟨rest, split⟩ := isPrefix
    -- A closed part would have been taken for the string.
    refine Bool.eq_false_iff.2 fun ends => closed ?_
    have length := stringLength_append ends 0 rest
    rw [split, all, Nat.zero_add, ← split, List.length_append] at length
    rw [← split, List.eq_nil_of_length_eq_zero (by omega : rest.length = 0), List.append_nil]
    exact ends

end Lexer

/-! ## Every token -/

/-- How a token is read behind others and in front of the rest of a text. -/
structure Token.Resolved (before : List Token) (token : Token) (rest : List Char) : Prop where
  /-- An operator between two operands follows an operand. -/
  operator : token.kind = .operator → (lastSignificant before).any Kind.isDataSignifier = true
  /-- An operator before its only operand does not. -/
  unary : token.kind = .unaryOperator → (lastSignificant before).any Kind.isDataSignifier = false
  /-- An opening bracket is that of a call exactly behind an operand. -/
  callOpen : token.kind = .callOpen ↔
    token.text = "[" ∧ (lastSignificant before).any Kind.isDataSignifier = true
  /-- Any other opening bracket is that of an array. -/
  arrayOpen : token.kind = .arrayOpen ↔
    token.text = "[" ∧ (lastSignificant before).any Kind.isDataSignifier = false
  /-- A number, a word, a placeholder or blanks do not go on in the rest. -/
  maximal : token.kind.isSpan = true → Lexer.Maximal token.kind token.text.toList rest
  /-- A string ends with its quote, or with the text. -/
  string : token.kind = .string → Lexer.Quoted token.text.toList rest

namespace Lexer

theorem resolved_token (before : List Token) (offset : Nat) (c : Char) (cs : List Char) :
    (token (contextAfter before) offset c cs).Resolved before
      (cs.drop (scan (contextAfter before) c cs).2) := by
  have data := followsData_contextAfter before
  have admits : (contextAfter before).Admits (token (contextAfter before) offset c cs).kind :=
    admits_scan ..
  have opening := text_eq_opening_iff (contextAfter before) offset c cs
  have behind := maximal_token (contextAfter before) offset c cs
  have quoted := quoted_token (contextAfter before) offset c cs
  -- From here on the token is any that the context admits.
  generalize token (contextAfter before) offset c cs = read at *
  refine ⟨fun kind => ?_, fun kind => ?_, ?_, ?_, behind, quoted⟩
  · rw [kind] at admits
    rw [← data]
    exact admits
  · rw [kind] at admits
    rw [← data]
    exact admits
  · rw [← data, opening]
    constructor
    · intro kind
      rw [kind] at admits
      exact ⟨.inl kind, admits⟩
    · rintro ⟨kind | kind, follows⟩
      · exact kind
      · rw [kind] at admits
        exact absurd (follows.symm.trans admits) (by decide)
  · rw [← data, opening]
    constructor
    · intro kind
      rw [kind] at admits
      exact ⟨.inr kind, admits⟩
    · rintro ⟨kind | kind, follows⟩
      · rw [kind] at admits
        exact absurd (follows.symm.trans admits) (by decide)
      · exact kind

/-- A token is scanned in the context that those before it lead to. -/
theorem Cuts.exists_token {context last : Context} {offset : Nat} {cs : List Char}
    {before after : List Token} {next : Token} (h : Cuts context offset cs (before ++ next :: after) last) :
    ∃ front c rest, cs = front ++ c :: rest ∧
      next = token (before.foldl (fun context token => context.next token.kind) context)
        (offset + (String.ofList front).utf8ByteSize) c rest := by
  induction before generalizing context offset cs with
  | nil =>
    cases h with
    | @cons _ _ _ c rest => exact ⟨[], c, rest, rfl, rfl⟩
  | cons first before ih =>
    rw [List.cons_append] at h
    cases h with
    | @cons _ _ _ c rest _ cuts =>
      obtain ⟨front, d, more, split, rfl⟩ := ih cuts
      refine ⟨(token context offset c rest).text.toList ++ front, d, more, ?_, ?_⟩
      · rw [token, String.toList_ofList, List.append_assoc, ← split, List.cons_append,
          List.take_append_drop]
      · rw [String.ofList_append, String.ofList_toList, String.utf8ByteSize_append, ← Nat.add_assoc]
        rfl

end Lexer

/-- Reading resolves all that the characters leave open. Square brackets close what they were opened
as. Every token stands in the text at its offset; it is an operator between two operands, or opens a
call, exactly behind an operand, and it takes all that it can of the text behind it. -/
theorem tokenize_resolved (source : String) :
    Lexer.Paired [] (tokenize source) ∧
      ∀ before token after, tokenize source = before ++ token :: after →
        ∃ front rest, source = front ++ token.text ++ rest ∧ front.utf8ByteSize = token.offset ∧
          token.Resolved before rest.toList := by
  obtain ⟨last, cuts⟩ := cuts_tokenize source
  refine ⟨cuts.paired, fun before token after split => ?_⟩
  rw [split] at cuts
  obtain ⟨front, c, cs, chars, rfl⟩ := cuts.exists_token
  refine ⟨String.ofList front, String.ofList (cs.drop (Lexer.scan (Lexer.contextAfter before) c cs).2),
    String.toList_injective ?_, (Nat.zero_add _).symm, ?_⟩
  · rw [chars, Lexer.token, ← String.ofList_append, ← String.ofList_append, String.toList_ofList,
      List.append_assoc, List.cons_append]
    exact congrArg (front ++ c :: ·) (List.take_append_drop _ cs).symm
  · rw [String.toList_ofList]
    exact Lexer.resolved_token before _ c cs

/-- In `f[-1]; ]_1_` the first bracket opens a call and is closed as one, the last one closes an array
that is not there, and the second underscore is no part of `_1`. -/
theorem tokenize_resolved_unopened :
    Lexer.Paired [] (tokenize "f[-1]; ]_1_") ∧
      ∃ front rest, "f[-1]; ]_1_" = front ++ "_1" ++ rest ∧ front.utf8ByteSize = 8 ∧
        (Token.mk .placeholder "_1" 8).Resolved
          [⟨.word, "f", 0⟩, ⟨.callOpen, "[", 1⟩, ⟨.unaryOperator, "-", 2⟩, ⟨.number, "1", 3⟩,
            ⟨.callClose, "]", 4⟩, ⟨.separator, ";", 5⟩, ⟨.whitespace, " ", 6⟩, ⟨.arrayClose, "]", 7⟩]
          rest.toList := by
  have resolved := tokenize_resolved "f[-1]; ]_1_"
  exact ⟨resolved.1, resolved.2 _ ⟨.placeholder, "_1", 8⟩ [⟨.placeholder, "_", 10⟩] (by decide +kernel)⟩

end ExprCompiler
