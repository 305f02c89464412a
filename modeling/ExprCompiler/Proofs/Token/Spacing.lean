import ExprCompiler.Proofs.Token.Tiling

/-!
# Tokens that stand apart

A token ends at the latest where a separator or a blank stands behind it, and the same tokens are read
before such a character as at the end of a text:

* `Lexer.scan_append_stop`: a token is scanned before a stop as at the end, unless it is a string that
  goes on;
* `unspaced`: the tokens other than blanks. `Lexer.Cuts.blanks`: more blanks in front of a text do not
  change them;
* `Lexer.Cuts.append`: what is read of a text that a stop follows is what is read of the text alone and
  of what begins with the stop;
* `Lexer.scan_of_append`, `Lexer.Cuts.of_append`: a text that ends between two tokens of a longer one
  has the tokens alone that it has there.
-/

namespace ExprCompiler

namespace Lexer

/-! ## Stops -/

section Stop

variable {α : Type} {p : α → Bool} {stop : α}

theorem takeWhile_append_stop (h : p stop = false) (xs rest : List α) :
    (xs ++ stop :: rest).takeWhile p = xs.takeWhile p := by
  induction xs with
  | nil => simp [h]
  | cons x xs ih => simp [List.takeWhile_cons, ih]

theorem dropWhile_append_stop (h : p stop = false) (xs rest : List α) :
    (xs ++ stop :: rest).dropWhile p = xs.dropWhile p ++ stop :: rest := by
  induction xs with
  | nil => simp [h]
  | cons x xs ih =>
    rw [List.cons_append, List.dropWhile_cons, List.dropWhile_cons, ih]
    split <;> rfl

theorem isPrefixOf_append_stop [BEq α] [LawfulBEq α] {xs : List α} (h : stop ∉ xs) (ys rest : List α) :
    xs.isPrefixOf (ys ++ stop :: rest) = xs.isPrefixOf ys := by
  induction xs generalizing ys with
  | nil => simp
  | cons x xs ih =>
    rw [List.mem_cons, not_or] at h
    cases ys with
    | nil => simp [List.isPrefixOf, Ne.symm h.1]
    | cons y ys => simp [List.isPrefixOf, ih h.2]

end Stop

/-- The characters that no token goes on with, strings and blanks apart. -/
def isStop (c : Char) : Bool :=
  c = ';' || isBlank c

theorem isStop_of_isBlank {c : Char} (h : isBlank c = true) : isStop c = true := by
  simp [isStop, h]

theorem eq_of_isStop {c : Char} (h : isStop c = true) :
    c = ';' ∨ c = ' ' ∨ c = '\t' ∨ c = '\n' ∨ c = '\r' ∨ c = '\x0b' ∨ c = '\x0c' := by
  simpa [isStop, isBlank, or_assoc] using h

theorem not_part_of_isStop {c : Char} (h : isStop c = true) :
    isNumberPart c = false ∧ isWordPart c = false ∧ decide (c = '_') = false ∧ c.isDigit = false := by
  rcases eq_of_isStop h with rfl | rfl | rfl | rfl | rfl | rfl | rfl <;> decide

theorem not_mem_symbol_of_isStop {c : Char} (h : isStop c = true) :
    ∀ entry ∈ Operator.table, c ∉ entry.symbol.toList := by
  rcases eq_of_isStop h with rfl | rfl | rfl | rfl | rfl | rfl | rfl <;> decide

/-- No operator goes on with a stop. -/
theorem leading?_append_stop {stop : Char} (h : isStop stop = true) (cs rest : List Char) :
    Operator.leading? (cs ++ stop :: rest) = Operator.leading? cs := by
  rw [Operator.leading?, Operator.leading?, ← List.head?_filter, ← List.head?_filter]
  congr 1
  exact List.filter_congr fun entry mem =>
    isPrefixOf_append_stop (not_mem_symbol_of_isStop h entry mem) cs rest

/-- A string has its closing quote, or goes on to the end. -/
theorem isClosed_or (cs : List Char) :
    isClosed (cs.take (stringLength 0 cs)) = true ∨ stringLength 0 cs = cs.length := by
  fun_induction isClosed cs with
  | case1 => exact .inr rfl
  | case2 cs => exact .inl rfl
  | case3 => exact .inr rfl
  | case4 c cs ih =>
    rw [stringLength_escape]
    refine ih.imp (fun closed => ?_) fun all => by simp [all]
    simpa [isClosed] using closed
  | case5 c cs notQuote notLast notEscape ih =>
    have notBackslash := ne_backslash notLast notEscape
    rw [stringLength_plain notQuote notBackslash]
    refine ih.imp (fun closed => ?_) fun all => by simp [all]
    rw [List.take_succ_cons, isClosed_cons notQuote notBackslash, closed]

/-- A string that has its closing quote is as long whatever follows. -/
theorem stringLength_append_of_isClosed {cs : List Char}
    (closed : isClosed (cs.take (stringLength 0 cs)) = true) (rest : List Char) :
    stringLength 0 (cs ++ rest) = stringLength 0 cs := by
  have le := stringLength_le 0 cs
  have again := stringLength_append closed 0 (cs.drop (stringLength 0 cs) ++ rest)
  rw [← List.append_assoc, List.take_append_drop, List.length_take] at again
  omega

theorem scan_of_isBlank {c : Char} (blank : isBlank c = true) (context : Context) (cs : List Char) :
    scan context c cs = (.whitespace, (cs.takeWhile isBlank).length) := by
  simp only [isBlank, Bool.or_eq_true, decide_eq_true_eq] at blank
  obtain (((((rfl | rfl) | rfl) | rfl) | rfl) | rfl) := blank <;> rfl

/-- A token that a stop follows is read as it is read at the end, unless it is a string that goes on or
the blanks go on. -/
theorem scan_append_stop {stop : Char} (h : isStop stop = true) (context : Context) (c : Char)
    (cs rest : List Char)
    (closed : (scan context c cs).1 = .string → isClosed (cs.take (scan context c cs).2) = true)
    (apart : (scan context c cs).1 = .whitespace → isBlank stop = false) :
    scan context c (cs ++ stop :: rest) = scan context c cs := by
  have leading : Operator.leading? (c :: (cs ++ stop :: rest)) = Operator.leading? (c :: cs) :=
    leading?_append_stop h (c :: cs) rest
  obtain ⟨number, word, underscore, digit⟩ := not_part_of_isStop h
  refine scan_congr_rest leading (fun blank => ?_) (fun kind begins => ?_) context
  · rw [scan_of_isBlank blank] at apart
    rw [takeWhile_append_stop (apart rfl)]
  · rw [begins.scan_eq] at closed
    cases begins with
    | number => rw [operandLength, operandLength, takeWhile_append_stop number]
    | string => exact stringLength_append_of_isClosed (closed rfl) _
    | word => rw [operandLength, operandLength, takeWhile_append_stop word]
    | placeholder =>
      rw [operandLength, operandLength, placeholderLength, placeholderLength,
        takeWhile_append_stop (p := (· = '_')) underscore,
        dropWhile_append_stop (p := (· = '_')) underscore, takeWhile_append_stop digit]

theorem token_append_stop {stop : Char} (h : isStop stop = true) (context : Context) (offset : Nat)
    (c : Char) (cs rest : List Char)
    (closed : (scan context c cs).1 = .string → isClosed (cs.take (scan context c cs).2) = true)
    (apart : (scan context c cs).1 = .whitespace → isBlank stop = false) :
    token context offset c (cs ++ stop :: rest) = token context offset c cs := by
  rw [token, token, scan_append_stop h context c cs rest closed apart,
    List.take_append_of_le_length (scan_le context c cs)]

end Lexer

/-! ## Blanks -/

/-- The tokens other than blanks. -/
def unspaced (tokens : List Token) : List Token :=
  tokens.filter fun token => token.kind ≠ .whitespace

theorem unspaced_cons_whitespace {token : Token} (kind : token.kind = .whitespace)
    (tokens : List Token) : unspaced (token :: tokens) = unspaced tokens :=
  List.filter_cons_of_neg (by simp [kind])

theorem unspaced_cons_of_ne {token : Token} (kind : token.kind ≠ .whitespace) (tokens : List Token) :
    unspaced (token :: tokens) = token :: unspaced tokens :=
  List.filter_cons_of_pos (by simpa using kind)

namespace Lexer

/-- Only blanks are scanned as such. -/
theorem isBlank_of_scan {context : Context} {c : Char} {cs : List Char}
    (h : (scan context c cs).1 = .whitespace) : isBlank c = true := by
  simp only [scan] at h
  split at h
  · split at h <;> cases h
  split at h
  · assumption
  split at h
  · cases h
  split at h
  · cases h
  split at h
  · cases h
  split at h
  · cases h
  simp only [single] at h
  split at h
  case h_2 | h_3 => split at h <;> cases h
  all_goals cases h

theorem next_whitespace (context : Context) : context.next .whitespace = context := rfl

/-- A blank in front of a text becomes part of the blanks that it begins with. -/
theorem Cuts.blank {c : Char} (blank : isBlank c = true) {context last : Context} {offset : Nat}
    {cs : List Char} {tokens : List Token}
    (h : Cuts context (offset + (String.ofList [c]).utf8ByteSize) cs tokens last) :
    ∃ tokens', Cuts context offset (c :: cs) tokens' last ∧ unspaced tokens' = unspaced tokens := by
  have scans := scan_of_isBlank blank context cs
  have kind : (token context offset c cs).kind = .whitespace := by rw [token, scans]
  -- What stands behind the blanks is cut alike.
  have behind (tokens' : List Token) (rest : Cuts context
      (offset + (token context offset c cs).text.utf8ByteSize) (cs.drop (cs.takeWhile isBlank).length)
      tokens' last) : Cuts context offset (c :: cs) (token context offset c cs :: tokens') last := by
    refine .cons ?_
    rw [kind, scans, next_whitespace]
    exact rest
  cases h with
  | nil => exact ⟨_, behind [] .nil, unspaced_cons_whitespace kind []⟩
  | @cons _ _ _ d cs tokens cuts =>
    by_cases blank' : isBlank d = true
    · have scans' := scan_of_isBlank blank' context cs
      have kind' : (token context (offset + (String.ofList [c]).utf8ByteSize) d cs).kind =
          .whitespace := by rw [token, scans']
      rw [kind', scans', next_whitespace] at cuts
      have more : (d :: cs).takeWhile isBlank = d :: cs.takeWhile isBlank :=
        List.takeWhile_cons_of_pos blank'
      have text : (token context offset c (d :: cs)).text = String.ofList [c] ++
          (token context (offset + (String.ofList [c]).utf8ByteSize) d cs).text := by
        rw [token, token, scans, scans', more]
        exact String.toList_injective (by simp)
      refine ⟨_, behind tokens ?_, ?_⟩
      · rw [text, String.utf8ByteSize_append, ← Nat.add_assoc, more]
        exact cuts
      · rw [unspaced_cons_whitespace kind, unspaced_cons_whitespace kind']
    · have none : (d :: cs).takeWhile isBlank = [] := List.takeWhile_cons_of_neg blank'
      have text : (token context offset c (d :: cs)).text = String.ofList [c] := by
        rw [token, scans, none]
        rfl
      refine ⟨_, behind _ ?_, unspaced_cons_whitespace kind _⟩
      rw [none, text]
      exact .cons cuts

/-- So do several. -/
theorem Cuts.blanks {blanks : List Char} (all : ∀ c ∈ blanks, isBlank c = true)
    {context last : Context} {offset : Nat} {cs : List Char} {tokens : List Token}
    (h : Cuts context (offset + (String.ofList blanks).utf8ByteSize) cs tokens last) :
    ∃ tokens', Cuts context offset (blanks ++ cs) tokens' last ∧ unspaced tokens' = unspaced tokens := by
  induction blanks generalizing offset with
  | nil => exact ⟨tokens, h, rfl⟩
  | cons c blanks ih =>
    obtain ⟨blank, all⟩ := List.forall_mem_cons.1 all
    rw [← List.singleton_append, String.ofList_append, String.utf8ByteSize_append, ← Nat.add_assoc] at h
    obtain ⟨inner, cuts, same⟩ := ih all h
    obtain ⟨tokens', cuts', same'⟩ := cuts.blank blank
    exact ⟨tokens', cuts', same'.trans same⟩

/-! ## A text before a stop -/

/-- The bytes of a text are those of its first token and of what is left. -/
theorem utf8ByteSize_cons_eq (context : Context) (offset : Nat) (c : Char) (cs : List Char) :
    (String.ofList (c :: cs)).utf8ByteSize = (token context offset c cs).text.utf8ByteSize +
      (String.ofList (cs.drop (scan context c cs).2)).utf8ByteSize := by
  rw [token, ← String.utf8ByteSize_append, ← String.ofList_append, List.cons_append,
    List.take_append_drop]

/-- Only the last token of a text can be a string that goes on. -/
theorem Cuts.isClosed_head {context last : Context} {offset : Nat} {c : Char} {cs : List Char}
    {tokens : List Token}
    (cuts : Cuts (context.next (token context offset c cs).kind)
      (offset + (token context offset c cs).text.utf8ByteSize) (cs.drop (scan context c cs).2) tokens last)
    (terminated : ∀ t ∈ (token context offset c cs :: tokens).getLast?, t.isTerminated = true)
    (string : (scan context c cs).1 = .string) : isClosed (cs.take (scan context c cs).2) = true := by
  cases tokens with
  | nil =>
    have terminated := terminated _ rfl
    simpa [Token.isTerminated, token, string] using terminated
  | cons next tokens =>
    have begins : Begins (scan context c cs).1 c := begins_of_isData (by rw [string]; rfl)
    have length : (scan context c cs).2 = stringLength 0 cs := by
      rw [begins.scan_eq context cs, string]
      rfl
    rw [length] at cuts ⊢
    refine (isClosed_or cs).resolve_right fun all => ?_
    rw [all, List.drop_length] at cuts
    cases cuts

/-- What is read behind a terminated text that a stop follows. -/
theorem Cuts.append {context middle last : Context} {offset : Nat} {stop : Char}
    {cs rest : List Char} {tokens more : List Token} (stops : isStop stop = true)
    (h : Cuts context offset cs tokens middle)
    (terminated : ∀ token ∈ tokens.getLast?, token.isTerminated = true)
    (h' : Cuts middle (offset + (String.ofList cs).utf8ByteSize) (stop :: rest) more last) :
    ∃ tokens', Cuts context offset (cs ++ stop :: rest) tokens' last ∧
      unspaced tokens' = unspaced tokens ++ unspaced more := by
  induction h with
  | nil => exact ⟨more, h', rfl⟩
  | @cons context middle offset c cs tokens cuts ih =>
    have closed := cuts.isClosed_head terminated
    rw [utf8ByteSize_cons_eq context offset, ← Nat.add_assoc] at h'
    obtain ⟨tokens', cuts', same⟩ := ih (fun t mem => terminated t (by
      rw [List.getLast?_cons, Option.mem_def.1 mem]; rfl)) h'
    by_cases kind : (scan context c cs).1 = .whitespace
    · -- The blanks may go on behind the text.
      have blank := isBlank_of_scan kind
      have scans := scan_of_isBlank blank context cs
      have all : ∀ d ∈ c :: cs.takeWhile isBlank, isBlank d = true :=
        List.forall_mem_cons.2 ⟨blank, List.all_eq_true.1 List.all_takeWhile⟩
      have taken : cs.take (cs.takeWhile isBlank).length = cs.takeWhile isBlank :=
        (List.prefix_iff_eq_take.1 (List.takeWhile_prefix isBlank)).symm
      have split : cs.takeWhile isBlank ++ cs.drop (cs.takeWhile isBlank).length = cs := by
        rw [← taken, List.length_take, Nat.min_eq_left (length_takeWhile_le isBlank cs),
          List.take_append_drop]
      have spaced : (token context offset c cs).kind = .whitespace := kind
      have text : (token context offset c cs).text = String.ofList (c :: cs.takeWhile isBlank) := by
        rw [token, scans, taken]
      rw [spaced, next_whitespace, scans, text] at cuts'
      obtain ⟨tokens'', cuts'', same'⟩ := cuts'.blanks all
      refine ⟨tokens'', ?_, ?_⟩
      · rw [List.cons_append, ← List.append_assoc, split] at cuts''
        exact cuts''
      · rw [same', same, unspaced_cons_whitespace spaced]
    · have apart : (scan context c cs).1 = .whitespace → isBlank stop = false := fun h => absurd h kind
      have alike := token_append_stop stops context offset c cs rest closed apart
      refine ⟨token context offset c cs :: tokens', ?_, ?_⟩
      · rw [List.cons_append, ← alike]
        refine .cons ?_
        rw [alike, scan_append_stop stops context c cs rest closed apart,
          List.drop_append_of_le_length (scan_le context c cs)]
        exact cuts'
      · have spaced : (token context offset c cs).kind ≠ .whitespace := kind
        rw [unspaced_cons_of_ne spaced, unspaced_cons_of_ne spaced, same, List.cons_append]

/-! ## A text that ends between two tokens of a longer one -/

theorem takeWhile_of_append {α : Type} {p : α → Bool} {xs ys : List α}
    (h : ((xs ++ ys).takeWhile p).length ≤ xs.length) : xs.takeWhile p = (xs ++ ys).takeWhile p := by
  induction xs with
  | nil => exact (List.eq_nil_of_length_eq_zero (Nat.le_zero.1 h)).symm
  | cons x xs ih =>
    rw [List.cons_append, List.takeWhile_cons, List.takeWhile_cons]
    rw [List.cons_append, List.takeWhile_cons] at h
    split
    · rename_i takes
      rw [if_pos takes, List.length_cons, List.length_cons, Nat.add_le_add_iff_right] at h
      rw [ih h]
    · rfl

theorem le_stringLength (taken : Nat) (cs : List Char) : taken ≤ stringLength taken cs := by
  rw [← Nat.add_zero taken, stringLength_add]
  omega

theorem stringLength_of_append {taken : Nat} {xs ys : List Char}
    (h : stringLength taken (xs ++ ys) ≤ taken + xs.length) :
    stringLength taken xs = stringLength taken (xs ++ ys) := by
  fun_induction stringLength taken xs with
  | case1 taken =>
    have le := le_stringLength taken ys
    simp only [List.nil_append, List.length_nil] at h ⊢
    omega
  | case2 => rfl
  | case3 taken =>
    cases ys with
    | nil => rfl
    | cons y ys =>
      -- An escape takes the character behind it, which is not there.
      have le := le_stringLength (taken + 2) ys
      simp only [List.cons_append, List.nil_append, stringLength, List.length_singleton] at h
      omega
  | case4 taken c cs ih =>
    simp only [List.cons_append, stringLength, List.length_cons] at h ⊢
    exact ih (by omega)
  | case5 taken c cs notQuote notLast notEscape ih =>
    have next := stringLength_cons notQuote (ne_backslash notLast notEscape) taken (cs ++ ys)
    rw [List.cons_append, next, List.length_cons] at h
    rw [List.cons_append, next]
    exact ih (by omega)

theorem placeholderLength_of_append {xs ys : List Char}
    (h : placeholderLength (xs ++ ys) ≤ xs.length) :
    placeholderLength xs = placeholderLength (xs ++ ys) := by
  induction xs with
  | nil => exact (Nat.le_zero.1 h).symm
  | cons x xs ih =>
    by_cases underscore : x = '_'
    · subst underscore
      have next (cs : List Char) : placeholderLength ('_' :: cs) = placeholderLength cs + 1 := by
        simp only [placeholderLength, decide_true, List.takeWhile_cons_of_pos, List.length_cons,
          List.dropWhile_cons_of_pos]
        omega
      rw [List.cons_append, next, List.length_cons] at h
      rw [List.cons_append, next, next, ih (by omega)]
    · have next (cs : List Char) :
          placeholderLength (x :: cs) = ((x :: cs).takeWhile Char.isDigit).length := by
        simp [placeholderLength, underscore]
      rw [List.cons_append, next] at h
      rw [List.cons_append, next, next]
      exact congrArg List.length (takeWhile_of_append h)

/-- An operator that is there is there without what stands behind it. -/
theorem leading?_of_append {cs rest : List Char} {op : Operator}
    (h : Operator.leading? (cs ++ rest) = some op) (fits : op.symbol.toList.length ≤ cs.length) :
    Operator.leading? cs = some op := by
  rw [Operator.leading?, List.find?_eq_some_iff_append] at h ⊢
  obtain ⟨leads, before, after, split, others⟩ := h
  refine ⟨?_, before, after, split, fun other mem => ?_⟩
  · rw [List.isPrefixOf_iff_prefix] at leads ⊢
    exact List.prefix_of_prefix_length_le leads (List.prefix_append ..) fits
  · have no := others other mem
    rw [Bool.not_eq_true', ← Bool.not_eq_true, List.isPrefixOf_iff_prefix] at no ⊢
    exact fun leads => no (leads.trans (List.prefix_append ..))

theorem leading?_none_of_append {cs rest : List Char} (h : Operator.leading? (cs ++ rest) = none) :
    Operator.leading? cs = none := by
  rw [Operator.leading?, List.find?_eq_none] at h ⊢
  intro op mem leads
  refine h op mem ?_
  rw [List.isPrefixOf_iff_prefix] at leads ⊢
  exact leads.trans (List.prefix_append ..)

/-- An operand that ends with the characters or before is as long without what stands behind them. -/
theorem operandLength_of_append {kind : Kind} {xs ys : List Char}
    (h : operandLength kind (xs ++ ys) ≤ xs.length) :
    operandLength kind xs = operandLength kind (xs ++ ys) := by
  cases kind with
  | number | word => exact congrArg List.length (takeWhile_of_append h)
  | string => exact stringLength_of_append (by rw [Nat.zero_add]; exact h)
  | placeholder => exact placeholderLength_of_append h
  | _ => rfl

/-- A token is scanned alike without what stands behind it. -/
theorem scan_of_append {context : Context} {c : Char} {xs ys : List Char}
    (h : (scan context c (xs ++ ys)).2 ≤ xs.length) :
    scan context c xs = scan context c (xs ++ ys) := by
  have leading : Operator.leading? (c :: xs) = Operator.leading? (c :: (xs ++ ys)) := by
    cases leading : Operator.leading? (c :: (xs ++ ys)) with
    | none => exact leading?_none_of_append leading
    | some op =>
      simp only [scan, leading] at h
      refine leading?_of_append leading ?_
      rw [List.length_cons]
      omega
  refine scan_congr_rest leading (fun blank => ?_) (fun kind begins => ?_) context
  · rw [scan_of_isBlank blank] at h
    rw [takeWhile_of_append h]
  · rw [begins.scan_eq] at h
    exact operandLength_of_append h

/-- A text that ends between two tokens is cut alone as it is with more behind it, and so is what
stands behind it. -/
theorem Cuts.of_append {context last : Context} {offset : Nat} {us vs : List Char}
    {tokens more : List Token} (h : Cuts context offset (us ++ vs) (tokens ++ more) last)
    (whole : tokens.flatMap (fun token => token.text.toList) = us) :
    ∃ middle, Cuts context offset us tokens middle ∧
      Cuts middle (offset + (String.ofList us).utf8ByteSize) vs more last := by
  induction tokens generalizing context offset us with
  | nil =>
    subst whole
    exact ⟨context, .nil, h⟩
  | cons first tokens ih =>
    subst whole
    generalize eq : (first :: tokens).flatMap (fun token => token.text.toList) ++ vs = text at h
    rw [List.cons_append] at h
    cases h with
    | @cons _ _ _ c cs _ cuts =>
      simp only [List.flatMap_cons] at eq ⊢
      have toList : (token context offset c cs).text.toList = c :: cs.take (scan context c cs).2 := by
        rw [token, String.toList_ofList]
      rw [toList] at eq ⊢
      simp only [List.cons_append, List.cons.injEq, true_and] at eq ⊢
      generalize rest : tokens.flatMap (fun token => token.text.toList) = us at eq ⊢
      generalize length : (scan context c cs).2 = n at eq cuts toList ⊢
      have le : n ≤ cs.length := length ▸ scan_le context c cs
      have behind : cs.drop n = us ++ vs := by
        have split : cs.take n ++ cs.drop n = cs.take n ++ (us ++ vs) := by
          rw [List.take_append_drop, ← List.append_assoc]
          exact eq.symm
        exact List.append_cancel_left split
      -- The token takes no more than stands in front of what is cut off.
      have alike : scan context c (cs.take n ++ us) = scan context c cs := by
        have enough : (scan context c ((cs.take n ++ us) ++ vs)).2 ≤ (cs.take n ++ us).length := by
          rw [eq, length, List.length_append, List.length_take]
          omega
        rw [scan_of_append enough, eq]
      have same : token context offset c (cs.take n ++ us) = token context offset c cs := by
        rw [token, token, alike, length, List.take_append_of_le_length (by rw [List.length_take]; omega),
          List.take_take, Nat.min_self]
      rw [behind] at cuts
      obtain ⟨middle, front, back⟩ := ih cuts rest
      refine ⟨middle, ?_, ?_⟩
      · rw [← same]
        refine .cons ?_
        have drop : (cs.take n ++ us).drop n = us := by
          rw [List.drop_append_of_le_length (by rw [List.length_take]; omega), List.drop_take, Nat.sub_self,
            List.take_zero, List.nil_append]
        rw [same, alike, length, drop]
        exact front
      · rw [← List.cons_append, String.ofList_append, String.utf8ByteSize_append, ← Nat.add_assoc,
          ← toList, String.ofList_toList]
        exact back

end Lexer

end ExprCompiler
