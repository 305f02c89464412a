import ExprCompiler.Proofs.Run
import ExprCompiler.Proofs.Text.Location
import ExprCompiler.Token.Lexer

/-!
# Recognising tokens

The recognisers count bytes. Here it is shown that what they count are whole characters, at least one,
and which characters these are:

* `Lexer.cut_size`: a text can be cut behind the bytes of characters that it begins with;
* `Lexer.spanBytes_eq`, `Lexer.stringEnd_eq`, `Lexer.placeholderSize_cons`: what the counts stand for;
* `Lexer.recognize_isFront`: every recogniser answers, and each length that it finds is that of some
  characters in front;
* `Lexer.scan`, `Lexer.firstOf_order`: the kind and the length of the next token, by characters;
* `Lexer.step_cons`: so every turn reads a token;
* `Lexer.Loop`, `Lexer.Loop.run_eq`: the loop as the turns that it takes.
-/

namespace ExprCompiler

/-- Every operator is written somehow. -/
theorem Operator.symbol_ne_nil {op : Operator} (mem : op ∈ Operator.table) : op.symbol.toList ≠ [] := by
  have all : ∀ op ∈ Operator.table, op.symbol.toList ≠ [] := by decide
  exact all op mem

/-- An operator that characters begin with stands there as the table has it. -/
theorem Operator.take_of_leading? {c : Char} {cs : List Char} {op : Operator}
    (leading : leading? (c :: cs) = some op) :
    c :: cs.take (op.symbol.toList.length - 1) = op.symbol.toList := by
  have isPrefix := List.find?_some (p := fun op : Operator => op.symbol.toList.isPrefixOf (c :: cs)) leading
  obtain ⟨rest, whole⟩ := List.isPrefixOf_iff_prefix.1 isPrefix
  obtain ⟨d, ds, symbol⟩ := List.exists_cons_of_ne_nil (symbol_ne_nil (List.mem_of_find?_eq_some leading))
  rw [symbol, List.cons_append] at whole
  obtain ⟨rfl, rfl⟩ := List.cons.inj whole
  rw [symbol, List.length_cons, Nat.add_sub_cancel, List.take_left]

namespace Lexer

/-- The bytes of characters. -/
def size (cs : List Char) : Nat :=
  (String.ofList cs).utf8ByteSize

@[simp] theorem size_nil : size [] = 0 := rfl

@[simp] theorem size_cons (c : Char) (cs : List Char) : size (c :: cs) = c.utf8Size + size cs :=
  Location.utf8ByteSize_cons c cs

theorem size_pos (c : Char) (cs : List Char) : 0 < size (c :: cs) := by
  have first := c.utf8Size_pos
  rw [size_cons]
  omega

theorem size_append (cs ds : List Char) : size (cs ++ ds) = size cs + size ds := by
  rw [size, String.ofList_append, String.utf8ByteSize_append]
  rfl

theorem size_toList (text : String) : size text.toList = text.utf8ByteSize := by
  rw [size, String.ofList_toList]

/-! ## Cuts -/

/-- A cut behind the bytes of some characters comes between these and the rest. -/
theorem cut_size (before front rest : List Char) :
    cut before (size front) (front ++ rest) = .ok (before.reverse ++ front, rest) := by
  induction front generalizing before with
  | nil => simp [cut]
  | cons c front ih =>
    obtain ⟨n, pos⟩ := Nat.exists_eq_succ_of_ne_zero (Nat.ne_of_gt c.utf8Size_pos)
    have whole : size (c :: front) = n + size front + 1 := by rw [size_cons, pos]; omega
    have left : n + size front + 1 - c.utf8Size = size front := by omega
    rw [whole, List.cons_append, cut, if_pos (by omega), left, ih, List.reverse_cons, List.append_assoc,
      List.singleton_append]

/-! ## Counts of bytes -/

theorem spanBytes_eq (takes : Char → Bool) (n : Nat) (cs : List Char) :
    spanBytes takes n cs = n + size (cs.takeWhile takes) := by
  fun_induction spanBytes takes n cs with
  | case1 => rfl
  | case2 n c cs accepted ih => rw [ih, List.takeWhile_cons_of_pos accepted, size_cons, Nat.add_assoc]
  | case3 n c cs refused => rw [List.takeWhile_cons_of_neg refused]; rfl

/-- How many characters a string takes after its opening quote: up to the first quote that no
backslash precedes, or all of them. `taken` counts those before `cs`. -/
def stringLength (taken : Nat) : List Char → Nat
  | [] => taken
  | '"' :: _ => taken + 1
  | ['\\'] => taken + 1
  | '\\' :: _ :: cs => stringLength (taken + 2) cs
  | _ :: cs => stringLength (taken + 1) cs

theorem stringLength_add (taken more : Nat) (cs : List Char) :
    stringLength (taken + more) cs = taken + stringLength more cs := by
  fun_induction stringLength more cs with
  | case1 => rfl
  | case2 => rfl
  | case3 => rfl
  | case4 more c cs ih => rw [stringLength, Nat.add_assoc, ih]
  | case5 more c cs notQuote notLast notEscape ih =>
    rw [stringLength, Nat.add_assoc, ih]
    · exact notQuote
    · exact notLast
    · exact notEscape

/-- A character that begins no escape is no backslash. -/
theorem ne_backslash {c : Char} {cs : List Char} (notLast : c = '\\' → cs = [] → False)
    (notEscape : ∀ d ds, c = '\\' → cs = d :: ds → False) : c ≠ '\\' := by
  rintro rfl
  cases cs with
  | nil => exact notLast rfl rfl
  | cons d ds => exact notEscape d ds rfl rfl

theorem stringLength_cons {c : Char} (quote : c ≠ '"') (backslash : c ≠ '\\') (taken : Nat)
    (cs : List Char) : stringLength taken (c :: cs) = stringLength (taken + 1) cs := by
  rw [stringLength]
  · exact quote
  · exact fun escape => absurd escape backslash
  · exact fun _ _ escape => absurd escape backslash

theorem stringLength_escape (c : Char) (cs : List Char) :
    stringLength 0 ('\\' :: c :: cs) = stringLength 0 cs + 2 := by
  rw [stringLength, Nat.zero_add, Nat.add_comm]
  exact stringLength_add 2 0 cs

theorem stringLength_plain {c : Char} (quote : c ≠ '"') (backslash : c ≠ '\\') (cs : List Char) :
    stringLength 0 (c :: cs) = stringLength 0 cs + 1 := by
  rw [stringLength_cons quote backslash, Nat.zero_add, Nat.add_comm, ← stringLength_add]

/-- A string ends behind the characters that it takes. -/
theorem stringEnd_eq (n : Nat) (cs : List Char) :
    stringEnd n cs = n + size (cs.take (stringLength 0 cs)) := by
  fun_induction stringEnd n cs with
  | case1 => rfl
  | case2 => rfl
  | case3 => rfl
  | case4 n c cs ih =>
    have backslash : '\\'.utf8Size = 1 := rfl
    rw [ih, stringLength_escape, List.take_succ_cons, List.take_succ_cons, size_cons, size_cons, backslash]
    omega
  | case5 n c cs notQuote notLast notEscape ih =>
    rw [ih, stringLength_plain notQuote (ne_backslash notLast notEscape), List.take_succ_cons, size_cons]
    omega

/-- How many characters a placeholder takes after its first underscore: underscores, then digits. -/
def placeholderLength (cs : List Char) : Nat :=
  (cs.takeWhile (· = '_')).length + ((cs.dropWhile (· = '_')).takeWhile Char.isDigit).length

/-- A placeholder takes its underscores and its index. -/
theorem take_placeholderLength (cs : List Char) :
    cs.take (placeholderLength cs) =
      cs.takeWhile (· = '_') ++ (cs.dropWhile (· = '_')).takeWhile Char.isDigit := by
  have split : cs = cs.takeWhile (· = '_') ++ cs.dropWhile (· = '_') :=
    List.takeWhile_append_dropWhile.symm
  have digits := List.takeWhile_prefix Char.isDigit (l := cs.dropWhile (· = '_'))
  rw [← List.prefix_append_right_inj (cs.takeWhile (· = '_')), ← split] at digits
  rw [List.prefix_iff_eq_take.1 digits, List.length_append]
  rfl

/-! ## What the recognisers find -/

/-- A run of characters that its first one is part of. -/
theorem spanBytes_cons {takes : Char → Bool} {c : Char} (first : takes c = true) (cs : List Char) :
    spanBytes takes 0 (c :: cs) = size (c :: cs.take (cs.takeWhile takes).length) := by
  rw [spanBytes_eq, Nat.zero_add, List.takeWhile_cons_of_pos first,
    ← List.prefix_iff_eq_take.1 (List.takeWhile_prefix takes)]

section Recognisers

variable (c : Char) (cs : List Char)

theorem singleSize_cons {d : Char} (oneByte : d.utf8Size = 1) :
    singleSize d (c :: cs) = if c = d then some (size (c :: cs.take 0)) else none := by
  by_cases same : c = d
  · subst same
    simp [singleSize, startsWith, oneByte]
  · simp [singleSize, startsWith, same]

theorem blankSize_cons : blankSize (c :: cs) =
    if isBlank c then some (size (c :: cs.take (cs.takeWhile isBlank).length)) else none := by
  by_cases blank : isBlank c = true
  · simp only [blankSize, spanBytes_cons blank, if_pos (size_pos ..), if_pos blank]
  · simp [blankSize, spanBytes, blank]

theorem numberSize_cons : numberSize (c :: cs) =
    if c.isDigit then some (size (c :: cs.take (cs.takeWhile isNumberPart).length)) else none := by
  by_cases digit : c.isDigit = true
  · have part : isNumberPart c = true := by simp [isNumberPart, digit]
    simp [numberSize, startsWith, digit, spanBytes_cons part]
  · simp [numberSize, startsWith, digit]

theorem stringSize_cons : stringSize (c :: cs) =
    if c = '"' then some (size (c :: cs.take (stringLength 0 cs))) else none := by
  by_cases quote : c = '"'
  · subst quote
    simp only [stringSize, startsWith, List.head?_cons, List.tail_cons, stringEnd_eq, size_cons]
    rfl
  · simp [stringSize, startsWith, quote]

theorem wordSize_cons : wordSize (c :: cs) =
    if c.isAlpha then some (size (c :: cs.take (cs.takeWhile isWordPart).length)) else none := by
  by_cases alpha : c.isAlpha = true
  · have part : isWordPart c = true := by simp [isWordPart, Char.isAlphanum, alpha]
    simp [wordSize, startsWith, alpha, spanBytes_cons part]
  · simp [wordSize, startsWith, alpha]

/-- The cut behind the underscores of a placeholder comes in front of its digits. -/
theorem placeholderSize_cons : placeholderSize (c :: cs) =
    .ok (if c = '_' then some (size (c :: cs.take (placeholderLength cs))) else none) := by
  by_cases underscore : c = '_'
  · subst underscore
    have split : '_' :: cs = ('_' :: cs.takeWhile (· = '_')) ++ cs.dropWhile (· = '_') := by
      rw [List.cons_append, List.takeWhile_append_dropWhile]
    have underscores : spanBytes (· = '_') 0 ('_' :: cs) = size ('_' :: cs.takeWhile (· = '_')) := by
      rw [spanBytes_eq, Nat.zero_add, List.takeWhile_cons_of_pos rfl]
    have cuts := cut_size [] ('_' :: cs.takeWhile (· = '_')) (cs.dropWhile (· = '_'))
    rw [← split, ← underscores] at cuts
    have whole : '_' :: cs.take (placeholderLength cs) =
        ('_' :: cs.takeWhile (· = '_')) ++ (cs.dropWhile (· = '_')).takeWhile Char.isDigit := by
      rw [take_placeholderLength, List.cons_append]
    have starts : startsWith (· = '_') ('_' :: cs) = true := rfl
    simp only [placeholderSize, if_pos starts, cuts, if_true]
    show Except.ok (some (_ + _)) = _
    rw [underscores, spanBytes_eq, Nat.zero_add, whole, size_append]
  · simp [placeholderSize, startsWith, underscore, pure, Except.pure]

theorem operatorSize_cons : operatorSize (c :: cs) =
    (Operator.leading? (c :: cs)).map fun op => size (c :: cs.take (op.symbol.toList.length - 1)) := by
  rw [operatorSize]
  refine Option.map_congr fun op leading => ?_
  rw [Operator.take_of_leading? leading, size_toList]

end Recognisers

/-! ## Progress and boundaries -/

/-- The number is that of the bytes of some characters in front, one or more. -/
def IsFront (cs : List Char) (n : Nat) : Prop :=
  ∃ front rest, cs = front ++ rest ∧ front ≠ [] ∧ n = size front

theorem IsFront.pos {cs : List Char} {n : Nat} (h : IsFront cs n) : 0 < n := by
  obtain ⟨front, rest, -, some, rfl⟩ := h
  obtain ⟨c, front, rfl⟩ := List.exists_cons_of_ne_nil some
  exact size_pos c front

theorem isFront_take (c : Char) (cs : List Char) (k : Nat) :
    IsFront (c :: cs) (size (c :: cs.take k)) :=
  ⟨c :: cs.take k, cs.drop k, by rw [List.cons_append, List.take_append_drop], nofun, rfl⟩

theorem isFront_of_mem_ite {accepted : Prop} [Decidable accepted] {c : Char} {cs : List Char} {k n : Nat}
    (h : n ∈ if accepted then some (size (c :: cs.take k)) else none) : IsFront (c :: cs) n := by
  split at h
  · cases h
    exact isFront_take c cs k
  · cases h

theorem recognize_nil (context : Context) (kind : Kind) : recognize context [] kind = .ok none := by
  cases kind with
  | operator | callOpen | callClose => exact congrArg Except.ok (ite_self none)
  | _ => rfl

/-- Every recogniser answers. What it finds makes progress, to a boundary between two characters. -/
theorem recognize_isFront (context : Context) (cs : List Char) (kind : Kind) :
    ∃ found, recognize context cs kind = .ok found ∧ ∀ n ∈ found, IsFront cs n := by
  cases cs with
  | nil => exact ⟨none, recognize_nil context kind, nofun⟩
  | cons c cs =>
    have operators : ∀ n ∈ operatorSize (c :: cs), IsFront (c :: cs) n := by
      rw [operatorSize_cons]
      rintro n found
      obtain ⟨op, -, rfl⟩ := Option.map_eq_some_iff.1 found
      exact isFront_take c cs _
    have singles {d : Char} (oneByte : d.utf8Size = 1) : ∀ n ∈ singleSize d (c :: cs), IsFront (c :: cs) n := by
      rw [singleSize_cons c cs oneByte]
      exact fun _ => isFront_of_mem_ite
    cases kind with
    | operator =>
      refine ⟨_, rfl, ?_⟩
      split
      · exact operators
      · nofun
    | unaryOperator => exact ⟨_, rfl, operators⟩
    | whitespace => exact ⟨_, congrArg Except.ok (blankSize_cons c cs), fun _ => isFront_of_mem_ite⟩
    | number => exact ⟨_, congrArg Except.ok (numberSize_cons c cs), fun _ => isFront_of_mem_ite⟩
    | string => exact ⟨_, congrArg Except.ok (stringSize_cons c cs), fun _ => isFront_of_mem_ite⟩
    | word => exact ⟨_, congrArg Except.ok (wordSize_cons c cs), fun _ => isFront_of_mem_ite⟩
    | placeholder => exact ⟨_, placeholderSize_cons c cs, fun _ => isFront_of_mem_ite⟩
    | callOpen | callClose =>
      refine ⟨_, rfl, ?_⟩
      split
      · exact singles rfl
      · nofun
    | other =>
      refine ⟨_, rfl, ?_⟩
      rintro _ ⟨⟩
      simpa using isFront_take c cs 0
    | _ => exact ⟨_, rfl, singles rfl⟩

/-! ## The next token -/

/-- The kind of a character that is a token by itself. -/
def single (context : Context) : Char → Kind
  | ';' => .separator
  | '[' => if context.followsData then .callOpen else .arrayOpen
  | ']' => if context.brackets.head? = some .call then .callClose else .arrayClose
  | '(' => .parenOpen
  | ')' => .parenClose
  | ',' => .comma
  | '{' => .lambdaOpen
  | '}' => .lambdaClose
  | _ => .other

/-- The kind of the token that begins with `c`, and how many of the characters after `c` it takes. -/
def scan (context : Context) (c : Char) (cs : List Char) : Kind × Nat :=
  match Operator.leading? (c :: cs) with
  | some op =>
    (if context.followsData then .operator else .unaryOperator, op.symbol.toList.length - 1)
  | none =>
    if isBlank c then (.whitespace, (cs.takeWhile isBlank).length)
    else if c.isDigit then (.number, (cs.takeWhile isNumberPart).length)
    else if c = '"' then (.string, stringLength 0 cs)
    else if c.isAlpha then (.word, (cs.takeWhile isWordPart).length)
    else if c = '_' then (.placeholder, placeholderLength cs)
    else (single context c, 0)

/-- A character that begins nothing longer is a token by itself. -/
theorem firstOf_singles (context : Context) (c : Char) (cs : List Char) :
    firstOf context (c :: cs) (order.drop 7) = .ok (some (single context c, c.utf8Size)) := by
  have none {d : Char} (other : c = d → False) : singleSize d (c :: cs) = none := by
    have differs : ¬ c = d := other
    simp [singleSize, startsWith, differs]
  show firstOf context (c :: cs) [.separator, .callOpen, .arrayOpen, .callClose, .arrayClose, .parenOpen,
    .parenClose, .comma, .lambdaOpen, .lambdaClose, .other] = _
  unfold single
  split
  case h_9 semicolon opening closing parenOpen parenClose comma lambdaOpen lambdaClose =>
    simp only [firstOf, recognize, none semicolon, none opening, none closing, none parenOpen,
      none parenClose, none comma, none lambdaOpen, none lambdaClose, ite_self]
    rfl
  all_goals
    by_cases call : context.brackets.head? = some .call
    · simp only [firstOf, recognize, if_pos call]
      cases context.followsData <;> rfl
    · simp only [firstOf, recognize, if_neg call]
      cases context.followsData <;> rfl

/-- The first kind is taken if its recogniser accepts the characters. -/
theorem firstOf_of_ite (context : Context) {cs : List Char} (kind : Kind) {n : Nat} {accepted : Prop}
    [Decidable accepted] (h : recognize context cs kind = .ok (if accepted then some n else none))
    (kinds : List Kind) : firstOf context cs (kind :: kinds) =
      if accepted then .ok (some (kind, n)) else firstOf context cs kinds := by
  rw [firstOf, h]
  split <;> rfl

/-- The first recogniser that finds something finds the next token. -/
theorem firstOf_order (context : Context) (c : Char) (cs : List Char) :
    firstOf context (c :: cs) order =
      .ok (some ((scan context c cs).1, size (c :: cs.take (scan context c cs).2))) := by
  have operators := operatorSize_cons c cs
  cases leading : Operator.leading? (c :: cs) with
  | some op =>
    rw [leading, Option.map_some] at operators
    simp only [order, firstOf, recognize, operators, scan, leading]
    cases context.followsData <;> rfl
  | none =>
    rw [leading, Option.map_none] at operators
    have others : firstOf context (c :: cs) order = firstOf context (c :: cs) (order.drop 2) := by
      simp only [order, List.drop_succ_cons, List.drop_zero, firstOf, recognize, operators, ite_self]
      rfl
    rw [others]
    show firstOf context (c :: cs) (.whitespace :: .number :: .string :: .word :: .placeholder ::
      order.drop 7) = _
    rw [firstOf_of_ite context .whitespace (congrArg Except.ok (blankSize_cons c cs)),
      firstOf_of_ite context .number (congrArg Except.ok (numberSize_cons c cs)),
      firstOf_of_ite context .string (congrArg Except.ok (stringSize_cons c cs)),
      firstOf_of_ite context .word (congrArg Except.ok (wordSize_cons c cs)),
      firstOf_of_ite context .placeholder (placeholderSize_cons c cs), firstOf_singles]
    simp only [scan, leading]
    split_ifs
    case neg => rw [List.take_zero, size_cons, size_nil, Nat.add_zero]
    all_goals rfl

/-! ## The loop -/

/-- The token that begins with `c`. -/
def token (context : Context) (offset : Nat) (c : Char) (cs : List Char) : Token :=
  ⟨(scan context c cs).1, String.ofList (c :: cs.take (scan context c cs).2), offset⟩

/-- Where there are characters, a turn reads a token. -/
theorem step_cons (context : Context) (offset : Nat) (c : Char) (cs : List Char) (tokens : Array Token) :
    step ⟨context, offset, c :: cs, tokens⟩ =
      .ok ⟨context.next (token context offset c cs).kind,
        offset + (token context offset c cs).text.utf8ByteSize, cs.drop (scan context c cs).2,
        tokens.push (token context offset c cs)⟩ := by
  have cuts := cut_size [] (c :: cs.take (scan context c cs).2) (cs.drop (scan context c cs).2)
  rw [List.cons_append, List.take_append_drop] at cuts
  simp only [step, firstOf_order]
  show Except.bind (cut [] _ _) _ = _
  rw [cuts]
  rfl

theorem text_token_ne_empty (context : Context) (offset : Nat) (c : Char) (cs : List Char) :
    (token context offset c cs).text ≠ "" := by
  intro empty
  have chars := congrArg String.toList empty
  rw [token, String.toList_ofList] at chars
  cases chars

theorem utf8ByteSize_pos {text : String} (h : text ≠ "") : 0 < text.utf8ByteSize := by
  rw [Nat.pos_iff_ne_zero]
  exact fun zero => h (String.utf8ByteSize_eq_zero_iff.1 zero)

/-- Where there is nothing left, a turn does nothing. -/
theorem step_nil (context : Context) (offset : Nat) (tokens : Array Token) :
    step ⟨context, offset, [], tokens⟩ = .ok ⟨context, offset, [], tokens⟩ := by
  have nothing : firstOf context [] order = .ok none := by
    simp only [order, firstOf, recognize_nil]
    rfl
  simp only [step, nothing]
  rfl

/-- The turns of the loop that reads up to the byte `stop`. -/
inductive Loop (stop : Nat) : State → State → Nat → Prop
  | done {state : State} : stop ≤ state.offset → Loop stop state state 0
  | turn {state next last : State} {turns : Nat} : state.offset < stop → step state = .ok next →
      Loop stop next last turns → Loop stop state last (turns + 1)

/-- Where the turns of the loop come to an end, running it ends there too. -/
theorem Loop.run_eq {stop turns : Nat} {state last : State} (h : Loop stop state last turns) :
    run stop state = .ok last := by
  induction h with
  | done behind => rw [run, if_neg (Nat.not_lt.2 behind)]
  | @turn state next last turns inside reads _ ih =>
    obtain ⟨context, offset, rest, tokens⟩ := state
    cases rest with
    | nil =>
      rw [step_nil] at reads
      cases reads
      exact ih
    | cons c cs =>
      rw [run, if_pos inside, reads]
      rw [step_cons] at reads
      cases reads
      have progress := utf8ByteSize_pos (text_token_ne_empty context offset c cs)
      exact (if_pos (Nat.lt_add_of_pos_right progress)).trans ih

end Lexer

end ExprCompiler
