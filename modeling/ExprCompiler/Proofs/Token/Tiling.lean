import ExprCompiler.Proofs.Token.Lexeme

/-!
# Tokens tile the text

Reading loses nothing of a source text and comes to its end:

* `Lexer.scan_le`: no token takes more characters than there are;
* `Lexer.Tiles`, `Lexer.Cuts.tiles`: tokens that follow each other without gaps;
* `Lexer.IsFront.isValid`: what a recogniser finds ends at a boundary between two characters;
* `pairwise_offset_tokenize`: the tokens of a source text stand in the order of their offsets;
* `tokenize_tiles`: the loop ends, and the tokens of every source text are not empty, follow each other
  from byte 0 on at boundaries of characters, and are the text when put together.
-/

namespace ExprCompiler

namespace Lexer

/-! ## No token takes more than there is -/

theorem length_takeWhile_le {α : Type} (p : α → Bool) (xs : List α) :
    (xs.takeWhile p).length ≤ xs.length :=
  (List.takeWhile_prefix p).length_le

theorem stringLength_le (taken : Nat) (cs : List Char) : stringLength taken cs ≤ taken + cs.length := by
  fun_induction stringLength taken cs <;> simp only [List.length_nil, List.length_cons] <;> omega

theorem placeholderLength_le (cs : List Char) : placeholderLength cs ≤ cs.length := by
  have digits := length_takeWhile_le Char.isDigit (cs.dropWhile (· = '_'))
  have split := congrArg List.length (List.takeWhile_append_dropWhile (p := (· = '_')) (l := cs))
  rw [List.length_append] at split
  rw [placeholderLength]
  omega

/-- An operator that the characters begin with takes some of them. -/
theorem length_symbol_le {c : Char} {cs : List Char} {op : Operator}
    (h : Operator.leading? (c :: cs) = some op) : op.symbol.toList.length - 1 ≤ cs.length := by
  have length := congrArg List.length (Operator.take_of_leading? h)
  simp only [List.length_cons, List.length_take] at length
  omega

/-- A token is part of what is left to read. -/
theorem scan_le (context : Context) (c : Char) (cs : List Char) :
    (scan context c cs).2 ≤ cs.length := by
  unfold scan
  split
  · rename_i op leading
    exact length_symbol_le leading
  split
  · exact length_takeWhile_le _ _
  split
  · exact length_takeWhile_le _ _
  split
  · have length := stringLength_le 0 cs
    omega
  split
  · exact length_takeWhile_le _ _
  split
  · exact placeholderLength_le cs
  · exact Nat.zero_le _

/-! ## Tiling -/

/-- Tokens that are not empty follow each other from byte `offset` on without a gap, and their texts
are the characters. -/
inductive Tiles : Nat → List Token → List Char → Prop
  | nil {offset : Nat} : Tiles offset [] []
  | cons {offset : Nat} {token : Token} {tokens : List Token} {cs : List Char} : token.text ≠ "" →
      token.offset = offset → Tiles (offset + token.text.utf8ByteSize) tokens cs →
      Tiles offset (token :: tokens) (token.text.toList ++ cs)

theorem Cuts.tiles {context last : Context} {offset : Nat} {cs : List Char} {tokens : List Token}
    (h : Cuts context offset cs tokens last) : Tiles offset tokens cs := by
  induction h with
  | nil => exact .nil
  | @cons context _ offset c cs _ _ ih =>
    have whole : (token context offset c cs).text.toList ++ cs.drop (scan context c cs).2 = c :: cs := by
      rw [token, String.toList_ofList, List.cons_append, List.take_append_drop]
    rw [← whole]
    exact .cons (text_token_ne_empty context offset c cs) rfl ih

section Tiles

variable {offset : Nat} {tokens : List Token} {cs : List Char}

theorem Tiles.text_ne_empty (h : Tiles offset tokens cs) : ∀ token ∈ tokens, token.text ≠ "" := by
  induction h with
  | nil => nofun
  | cons notEmpty _ _ ih => exact List.forall_mem_cons.2 ⟨notEmpty, ih⟩

theorem Tiles.offset_head (h : Tiles offset tokens cs) : ∀ first ∈ tokens.head?, first.offset = offset := by
  cases h with
  | nil => nofun
  | cons _ begins _ => rintro _ ⟨⟩; exact begins

theorem Tiles.toList_join (h : Tiles offset tokens cs) :
    (String.join (tokens.map Token.text)).toList = cs := by
  induction h with
  | nil => rfl
  | cons _ _ _ ih =>
    rw [String.toList_join] at ih ⊢
    rw [List.map_cons, List.flatMap_cons, ih]

/-- The tokens behind some others tile what those have left. -/
theorem Tiles.of_append {before after : List Token} (h : Tiles offset (before ++ after) cs) :
    ∃ rest, cs = (String.join (before.map Token.text)).toList ++ rest ∧
      Tiles (offset + (String.join (before.map Token.text)).utf8ByteSize) after rest := by
  induction before generalizing offset cs with
  | nil => exact ⟨cs, rfl, h⟩
  | cons token before ih =>
    rw [List.cons_append] at h
    cases h with
    | cons _ _ tiles =>
      obtain ⟨rest, rfl, behind⟩ := ih tiles
      refine ⟨rest, ?_, ?_⟩
      · simp [String.toList_join]
      · have size : (String.join ((token :: before).map Token.text)).utf8ByteSize =
            token.text.utf8ByteSize + (String.join (before.map Token.text)).utf8ByteSize := by
          rw [← String.utf8ByteSize_append]
          exact congrArg _ (String.toList_injective (by simp [String.toList_join]))
        rw [size, ← Nat.add_assoc]
        exact behind

/-- Tokens that tile characters stand behind the byte that they begin at, in the order of their
offsets. -/
theorem Tiles.pairwise_offset (h : Tiles offset tokens cs) :
    (∀ token ∈ tokens, offset ≤ token.offset) ∧
      tokens.Pairwise fun token later => token.offset < later.offset := by
  induction h with
  | nil => exact ⟨nofun, .nil⟩
  | cons notEmpty begins _ ih =>
    have size := utf8ByteSize_pos notEmpty
    refine ⟨List.forall_mem_cons.2 ⟨Nat.le_of_eq begins.symm, fun later mem => ?_⟩, .cons (fun later mem => ?_) ih.2⟩
    · have le := ih.1 later mem
      omega
    · have le := ih.1 later mem
      omega

/-- Tokens that tile characters begin before the end of these. -/
theorem Tiles.offset_lt (h : Tiles offset tokens cs) :
    ∀ token ∈ tokens, token.offset < offset + (String.ofList cs).utf8ByteSize := by
  induction h with
  | nil => exact List.forall_mem_nil _
  | cons notEmpty begins _ ih =>
    have size := utf8ByteSize_pos notEmpty
    rw [String.ofList_append, String.utf8ByteSize_append, String.ofList_toList, ← Nat.add_assoc]
    exact List.forall_mem_cons.2 ⟨by omega, ih⟩

end Tiles

end Lexer

theorem tiles_tokenize (source : String) : Lexer.Tiles 0 (tokenize source) source.toList := by
  obtain ⟨last, cuts⟩ := cuts_tokenize source
  exact cuts.tiles

/-- The tokens of a source text stand in the order of their offsets. -/
theorem pairwise_offset_tokenize (source : String) :
    (tokenize source).Pairwise fun token later => token.offset < later.offset :=
  (tiles_tokenize source).pairwise_offset.2

/-- A text in front of another one ends at a boundary between two characters. -/
theorem isValid_of_toList_append {text front : String} {rest : List Char}
    (split : text.toList = front.toList ++ rest) :
    String.Pos.Raw.IsValid text ⟨front.utf8ByteSize⟩ := by
  rw [String.Pos.Raw.isValid_iff_exists_append]
  refine ⟨front, String.ofList rest, ?_, rfl⟩
  exact String.toList_injective (by rw [String.toList_append, String.toList_ofList, split])

theorem Lexer.IsFront.isValid {text : String} {n : Nat} (h : IsFront text.toList n) :
    String.Pos.Raw.IsValid text ⟨n⟩ := by
  obtain ⟨front, rest, split, -, rfl⟩ := h
  exact isValid_of_toList_append (by rw [String.toList_ofList, split])

/-- Every recogniser answers, and what it finds takes at least one byte and ends between two characters.
So the loop ends, after one turn for each token and with nothing left. No token is empty, the first
begins at byte 0 and each later one where the one before it ends, always between two characters of the
text, and together they are the text. -/
theorem tokenize_tiles (source : String) :
    (∀ context (rest : String) kind, ∃ found, Lexer.recognize context rest.toList kind = .ok found ∧
        ∀ size ∈ found, 0 < size ∧ String.Pos.Raw.IsValid rest ⟨size⟩) ∧
      (∃ last, Lexer.Loop source.utf8ByteSize (.start .initial source) last (tokenize source).length ∧
        Lexer.readFrom .initial source = .ok last ∧ last.rest = [] ∧
        last.tokens.toList = tokenize source) ∧
      (∀ token ∈ tokenize source, token.text ≠ "") ∧
      (∀ first ∈ (tokenize source).head?, first.offset = 0) ∧
      (∀ before token next after, tokenize source = before ++ token :: next :: after →
        next.offset = token.offset + token.text.utf8ByteSize) ∧
      (∀ token ∈ tokenize source, String.Pos.Raw.IsValid source ⟨token.offset⟩) ∧
      String.join ((tokenize source).map Token.text) = source := by
  obtain ⟨last, cuts⟩ := cuts_tokenize source
  have tiles := cuts.tiles
  refine ⟨?_, ?_, tiles.text_ne_empty, tiles.offset_head, ?_, ?_, ?_⟩
  · intro context rest kind
    obtain ⟨found, answers, front⟩ := Lexer.recognize_isFront context rest.toList kind
    exact ⟨found, answers, fun size mem => ⟨(front size mem).pos, (front size mem).isValid⟩⟩
  · exact ⟨_, cuts.loop_start, Lexer.readFrom_of_cuts cuts, rfl, rfl⟩
  · intro before token next after eq
    rw [eq] at tiles
    obtain ⟨rest, -, behind⟩ := tiles.of_append
    cases behind with
    | cons _ begins behind => rw [behind.offset_head next rfl, begins]
  · intro token mem
    obtain ⟨before, after, eq⟩ := List.append_of_mem mem
    rw [eq] at tiles
    obtain ⟨rest, split, behind⟩ := tiles.of_append
    rw [behind.offset_head token rfl, Nat.zero_add]
    exact isValid_of_toList_append split
  · exact String.toList_injective tiles.toList_join

end ExprCompiler
