import ExprCompiler.Proofs.Text.Location
import ExprCompiler.Proofs.Token.Continuation

/-!
# Text added at the end

What is read of a text when more text is added behind it. Reading looks at no more than one character
behind a token, so that only the last token of a text can become another one:

* `Lexer.scan_append_of_lt`: a token that ends before the text does is scanned alike in a longer text.
  Operators are short (`leading?_append`), and what else is long ends where it cannot go on
  (`operandLength_append_of_lt`);
* `Lexer.Cuts.dropLast_prefix`: all tokens but the last stay;
* `exists_split_of_getLast?`, `tokenize_eq_of_split`: where a token of the longer text ends with the
  text, the text keeps all of its tokens, and what is added is read from the context that it ends in;
* `tokenize_append`: both, of every two texts.
-/

namespace ExprCompiler

namespace Lexer

/-! ## How far a token looks -/

/-- A run that ends before the elements do is not longer in more of them. -/
theorem takeWhile_append_of_lt {α : Type} {p : α → Bool} {xs : List α}
    (h : (xs.takeWhile p).length < xs.length) (ys : List α) :
    (xs ++ ys).takeWhile p = xs.takeWhile p := by
  rw [List.takeWhile_append, if_neg (Nat.ne_of_lt h)]

theorem placeholderLength_append_of_lt {cs : List Char} (h : placeholderLength cs < cs.length)
    (rest : List Char) : placeholderLength (cs ++ rest) = placeholderLength cs := by
  have split := congrArg List.length (List.takeWhile_append_dropWhile (p := (· = '_')) (l := cs))
  rw [List.length_append] at split
  rw [placeholderLength] at h
  -- Something that is no digit stands behind the underscores, so both runs end.
  have digits : ((cs.dropWhile (· = '_')).takeWhile Char.isDigit).length <
      (cs.dropWhile (· = '_')).length := by omega
  have underscores : (cs.takeWhile (· = '_')).length < cs.length := by omega
  have some : ¬ (cs.dropWhile (· = '_')).isEmpty = true := by
    rw [List.isEmpty_iff_length_eq_zero]
    omega
  rw [placeholderLength, placeholderLength, takeWhile_append_of_lt underscores, List.dropWhile_append,
    if_neg some, takeWhile_append_of_lt digits]

/-- An operand that ends before the characters do is not longer in more of them. A string that does has
its closing quote. -/
theorem operandLength_append_of_lt {kind : Kind} {cs : List Char}
    (h : operandLength kind cs < cs.length) (rest : List Char) :
    operandLength kind (cs ++ rest) = operandLength kind cs := by
  cases kind with
  | number | word => exact congrArg List.length (takeWhile_append_of_lt h rest)
  | string =>
    have closed := (isClosed_or cs).resolve_right (Nat.ne_of_lt h)
    exact stringLength_append_of_isClosed closed rest
  | placeholder => exact placeholderLength_append_of_lt h rest
  | _ => rfl

/-- No operator is longer than two characters. -/
theorem length_symbol_le_two {op : Operator} (mem : op ∈ Operator.table) :
    op.symbol.toList.length ≤ 2 := by
  have all : ∀ op ∈ Operator.table, op.symbol.toList.length ≤ 2 := by decide
  exact all op mem

/-- Two characters decide which operator stands there, if any. -/
theorem leading?_append {cs : List Char} (h : 2 ≤ cs.length) (rest : List Char) :
    Operator.leading? (cs ++ rest) = Operator.leading? cs := by
  rw [Operator.leading?, Operator.leading?, ← List.head?_filter, ← List.head?_filter]
  congr 1
  refine List.filter_congr fun op mem => ?_
  have short := length_symbol_le_two mem
  rw [Bool.eq_iff_iff, List.isPrefixOf_iff_prefix, List.isPrefixOf_iff_prefix]
  constructor
  · exact fun leads => List.prefix_of_prefix_length_le leads (List.prefix_append ..) (by omega)
  · exact fun leads => leads.trans (List.prefix_append ..)

/-- A token that ends before the text does is scanned alike in a longer text. -/
theorem scan_append_of_lt {context : Context} {c : Char} {cs : List Char}
    (h : (scan context c cs).2 < cs.length) (rest : List Char) :
    scan context c (cs ++ rest) = scan context c cs := by
  have two : 2 ≤ (c :: cs).length := by
    rw [List.length_cons]
    omega
  have leading : Operator.leading? (c :: (cs ++ rest)) = Operator.leading? (c :: cs) :=
    leading?_append two rest
  refine scan_congr_rest leading (fun blank => ?_) (fun kind begins => ?_) context
  · rw [scan_of_isBlank blank] at h
    rw [takeWhile_append_of_lt h]
  · rw [begins.scan_eq] at h
    exact operandLength_append_of_lt h rest

theorem token_append_of_lt {context : Context} {c : Char} {cs : List Char}
    (h : (scan context c cs).2 < cs.length) (offset : Nat) (rest : List Char) :
    token context offset c (cs ++ rest) = token context offset c cs := by
  rw [token, token, scan_append_of_lt h, List.take_append_of_le_length (Nat.le_of_lt h)]

/-! ## All tokens but the last -/

theorem Cuts.ne_nil {context last : Context} {offset : Nat} {cs : List Char} {next : Token}
    {tokens : List Token} (h : Cuts context offset cs (next :: tokens) last) : cs ≠ [] := by
  rintro rfl
  cases h

/-- With more text behind, all tokens but the last are cut off alike. -/
theorem Cuts.dropLast_prefix {context last last' : Context} {offset : Nat} {us vs : List Char}
    {tokens tokens' : List Token} (h : Cuts context offset us tokens last)
    (h' : Cuts context offset (us ++ vs) tokens' last') : tokens.dropLast <+: tokens' := by
  induction h generalizing tokens' with
  | nil => exact List.nil_prefix
  | @cons context last offset c cs tokens cuts ih =>
    cases tokens with
    | nil => exact List.nil_prefix
    | cons next tokens =>
      -- The token leaves something of the text to the next one.
      have lt : (scan context c cs).2 < cs.length := by
        rw [← Nat.not_le, ← List.drop_eq_nil_iff]
        exact cuts.ne_nil
      rw [List.cons_append] at h'
      cases h' with
      | cons cuts' =>
        rw [token_append_of_lt lt, scan_append_of_lt lt,
          List.drop_append_of_le_length (Nat.le_of_lt lt)] at cuts'
        rw [token_append_of_lt lt, List.dropLast_cons_of_ne_nil (List.cons_ne_nil next tokens),
          List.cons_prefix_cons]
        exact ⟨rfl, ih cuts'⟩

end Lexer

/-! ## Reading on -/

/-- The byte behind a token. -/
def Token.endOffset (token : Token) : Nat :=
  token.offset + token.text.utf8ByteSize

/-- The context that reading a source text ends in. -/
def Lexer.lastContext (source : String) : Lexer.Context :=
  match Lexer.readFrom .initial source with
  | .ok last => last.context
  | .error _ => .initial

theorem Lexer.lastContext_of_cuts {source : String} {tokens : List Token} {last : Context}
    (h : Cuts .initial 0 source.toList tokens last) : lastContext source = last := by
  rw [lastContext, readFrom_of_cuts h]

/-- A token ends where the texts up to it end. -/
theorem Lexer.Tiles.endOffset_eq {offset : Nat} {before after : List Token} {token : Token}
    {cs : List Char} (h : Tiles offset (before ++ token :: after) cs) :
    token.endOffset = offset + (String.join ((before ++ [token]).map Token.text)).utf8ByteSize := by
  obtain ⟨rest, -, behind⟩ := h.of_append
  cases behind with
  | cons _ begins _ =>
    have joined : String.join ((before ++ [token]).map Token.text) =
        String.join (before.map Token.text) ++ token.text := by
      simp [String.join_append]
    rw [Token.endOffset, begins, joined, String.utf8ByteSize_append, Nat.add_assoc]

/-- Where a token ends with the text, the longer text is cut there. -/
theorem exists_split_of_endOffset {text more : String} {token : Token}
    (mem : token ∈ tokenize (text ++ more)) (ends : token.endOffset = text.utf8ByteSize) :
    ∃ before after, tokenize (text ++ more) = before ++ after ∧
      String.join (before.map Token.text) = text := by
  obtain ⟨before, after, split⟩ := List.append_of_mem mem
  refine ⟨before ++ [token], after, by rw [split, List.append_assoc, List.singleton_append], ?_⟩
  have tiles := tiles_tokenize (text ++ more)
  rw [split] at tiles
  have size := tiles.endOffset_eq
  rw [ends, Nat.zero_add] at size
  rw [← List.singleton_append, ← List.append_assoc] at tiles
  obtain ⟨rest, chars, -⟩ := tiles.of_append
  generalize String.join ((before ++ [token]).map Token.text) = front at size chars ⊢
  -- Both are what stands before the same byte.
  have whole : text ++ more = front ++ String.ofList rest := String.toList_injective (by
    rw [chars, String.toList_append, String.toList_ofList])
  refine String.toList_injective ?_
  rw [← Location.before_append front (String.ofList rest), ← whole, ← size, Location.before_append]

/-- A text that ends between two tokens of a longer one has the tokens that it has alone, and those
behind it are read from the context that it ends in. -/
theorem tokenize_eq_of_split {text more : String} {before after : List Token}
    (split : tokenize (text ++ more) = before ++ after)
    (whole : String.join (before.map Token.text) = text) :
    before = tokenize text ∧
      after = (tokenizeFrom (Lexer.lastContext text) more).map (Token.shift text.utf8ByteSize) := by
  obtain ⟨_, cuts⟩ := cuts_tokenize (text ++ more)
  rw [split, String.toList_append] at cuts
  obtain ⟨middle, front, back⟩ := cuts.of_append (by
    rw [← whole, String.toList_join, List.flatMap_map])
  obtain ⟨_, alone⟩ := cuts_tokenize text
  have same := front.unique alone
  have context : Lexer.lastContext text = middle := Lexer.lastContext_of_cuts (same ▸ front)
  rw [← context, Nat.zero_add, String.ofList_toList] at back
  obtain ⟨_, cutsMore⟩ := Lexer.cuts_tokenizeFrom (Lexer.lastContext text) more
  obtain ⟨_, behind⟩ := cutsMore.shift rfl (.inl rfl) text.utf8ByteSize
  rw [Nat.zero_add] at behind
  exact ⟨same, back.unique behind⟩

/-- The last token ends with the text. -/
theorem endOffset_of_getLast? {text : String} {final : Token}
    (last : final ∈ (tokenize text).getLast?) : final.endOffset = text.utf8ByteSize := by
  obtain ⟨front, split⟩ := List.getLast?_eq_some_iff.1 last
  have tiles := tiles_tokenize text
  rw [split] at tiles
  rw [tiles.endOffset_eq, String.toList_injective tiles.toList_join, Nat.zero_add]

/-- The longer text is cut at the end of the text if a token of it ends where the last one of the text
does. In front of all tokens it is cut anyway. -/
theorem exists_split_of_getLast? {text more : String}
    (ends : ∀ final ∈ (tokenize text).getLast?,
      ∃ token ∈ tokenize (text ++ more), token.endOffset = final.endOffset) :
    ∃ before after, tokenize (text ++ more) = before ++ after ∧
      String.join (before.map Token.text) = text := by
  cases last : (tokenize text).getLast? with
  | none =>
    have empty := (tiles_tokenize text).toList_join
    rw [List.getLast?_eq_none_iff.1 last] at empty
    exact ⟨[], _, rfl, String.toList_injective empty⟩
  | some final =>
    obtain ⟨token, mem, same⟩ := ends final last
    exact exists_split_of_endOffset mem (same.trans (endOffset_of_getLast? last))

/-! ## Two texts -/

/-- All tokens but the last stay at their indices. -/
theorem getElem?_tokenize_append (text more : String) {i : Nat}
    (inner : i + 1 < (tokenize text).length) :
    (tokenize (text ++ more))[i]? = (tokenize text)[i]? := by
  obtain ⟨_, alone⟩ := cuts_tokenize text
  obtain ⟨_, cuts⟩ := cuts_tokenize (text ++ more)
  rw [String.toList_append] at cuts
  obtain ⟨rest, kept⟩ := alone.dropLast_prefix cuts
  have stays : i < (tokenize text).dropLast.length := by
    rw [List.length_dropLast]
    omega
  rw [← kept, List.getElem?_append_left stays, List.getElem?_dropLast, if_pos (by omega)]

/-- More text behind a text changes at most its last token. If that still ends where it did, then it is
the same, and what is added is read from the context that the text ends in, in its place behind it. -/
theorem tokenize_append (text more : String) :
    (∀ i, i + 1 < (tokenize text).length → (tokenize (text ++ more))[i]? = (tokenize text)[i]?) ∧
      ((∀ final ∈ (tokenize text).getLast?,
          ∃ token ∈ (tokenize (text ++ more))[(tokenize text).length - 1]?,
            token.endOffset = final.endOffset) →
        tokenize (text ++ more) = tokenize text ++
          (tokenizeFrom (Lexer.lastContext text) more).map (Token.shift text.utf8ByteSize)) := by
  refine ⟨fun i inner => getElem?_tokenize_append text more inner, fun ends => ?_⟩
  obtain ⟨before, after, split, whole⟩ := exists_split_of_getLast? fun final last => by
    obtain ⟨token, found, same⟩ := ends final last
    exact ⟨token, List.mem_of_getElem? found, same⟩
  obtain ⟨rfl, rfl⟩ := tokenize_eq_of_split split whole
  exact split

/-- Behind `f[[x` an array and a call are open, so that `]]-1` closes both. Alone it would close two
arrays that are not there. -/
theorem tokenize_append_open_brackets :
    (tokenize ("f[[x" ++ "]]-1"))[2]? = some ⟨.arrayOpen, "[", 2⟩ ∧
      (tokenize ("f[[x" ++ "]]-1"))[3]? = some ⟨.word, "x", 3⟩ ∧
      Lexer.lastContext "f[[x" = ⟨some .word, [.array, .call]⟩ ∧
      tokenize ("f[[x" ++ "]]-1") = tokenize "f[[x" ++
        [⟨.arrayClose, "]", 4⟩, ⟨.callClose, "]", 5⟩, ⟨.operator, "-", 6⟩, ⟨.number, "1", 7⟩] := by
  obtain ⟨kept, behind⟩ := tokenize_append "f[[x" "]]-1"
  have final : (tokenize "f[[x").getLast? = some ⟨.word, "x", 3⟩ := by decide +kernel
  have length : (tokenize "f[[x").length = 4 := by decide +kernel
  have same : (tokenize ("f[[x" ++ "]]-1"))[3]? = some ⟨.word, "x", 3⟩ := by decide +kernel
  refine ⟨(kept 2 (by decide +kernel)).trans (by decide +kernel), same, by decide +kernel,
    (behind ?_).trans (by decide +kernel)⟩
  rw [final, length]
  rintro _ ⟨⟩
  exact ⟨⟨.word, "x", 3⟩, same, rfl⟩

-- The last token may well become another one, here by the second character of an operator.
example : tokenize "a:" = [⟨.word, "a", 0⟩, ⟨.other, ":", 1⟩] ∧
    tokenize ("a:" ++ "=") = [⟨.word, "a", 0⟩, ⟨.operator, ":=", 1⟩] := by
  decide +kernel

end ExprCompiler
