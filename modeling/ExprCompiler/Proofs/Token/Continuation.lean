import ExprCompiler.Proofs.Postfix.Delimiters
import ExprCompiler.Proofs.Token.Spacing

/-!
# Reading on behind a separator

What becomes of the tokens of a text when another text and a separator come before it:

* `Lexer.Cuts.context_eq`: behind nested tokens only the last significant one matters;
* `Lexer.Cuts.shift`: in another place the same tokens are read, if none of them depends on what stands
  before (`Kind.isAmbiguous`) or what stands before does not matter to them;
* `Lexer.unspaced_tokenize_separator`: then the tokens of the whole text, blanks apart, are those of
  the first one, the separator, and those of the second one in their new places;
* `Lexer.Cuts.countP_isLeading_of_isAmbiguous`: otherwise one token less is read as in front of an
  operand. A separator does not part an operand from what follows it.
-/

namespace ExprCompiler

namespace Lexer

/-! ## The context behind tokens -/

theorem Cuts.last_eq {context last : Context} {offset : Nat} {cs : List Char} {tokens : List Token}
    (h : Cuts context offset cs tokens last) :
    last = tokens.foldl (fun context token => context.next token.kind) context := by
  induction h with
  | nil => rfl
  | cons _ ih => exact ih

theorem last_foldl_next (context : Context) (tokens : List Token) :
    (tokens.foldl (fun context token => context.next token.kind) context).last =
      (lastSignificant tokens).or context.last := by
  induction tokens generalizing context with
  | nil => rfl
  | cons token tokens ih =>
    have first : lastSignificant [token] = if token.kind.isSignificant then some token.kind else none :=
      lastSignificant_concat [] token
    rw [List.foldl_cons, ih, ← List.singleton_append, lastSignificant_append, first, Option.or_assoc,
      Context.next]
    cases token.kind.isSignificant <;> rfl

/-- Nested tokens leave no square bracket open. -/
theorem brackets_foldl_next {tokens : List Token} (h : Nested tokens) (context : Context) :
    (tokens.foldl (fun context token => context.next token.kind) context).brackets =
      context.brackets := by
  induction h generalizing context with
  | nil => rfl
  | @plain token tokens opens closes _ ih =>
    rw [List.foldl_cons, ih, Context.next]
    cases kind : token.kind <;> first
      | rfl
      | rw [kind] at opens closes; simp [Kind.opens?, Kind.closes?] at opens closes
  | @pair opening closing delimiter inner rest opens closes _ _ ihi ihr =>
    rw [List.foldl_cons, List.foldl_append, List.foldl_cons, ihr]
    have inside := ihi (context.next opening.kind)
    rw [Kind.opens?_eq_some_iff.1 opens] at inside ⊢
    cases kind : closing.kind <;> rw [kind] at closes <;> cases closes <;>
      simp [Context.next, Context.bracketsAfter, Delimiter.opener] at inside ⊢ <;> simp [inside]

/-- Behind nested tokens only the last significant one matters. -/
theorem Cuts.context_eq {last : Context} {offset : Nat} {cs : List Char} {tokens : List Token}
    (h : Cuts .initial offset cs tokens last) (nested : Nested tokens) :
    last = ⟨lastSignificant tokens, []⟩ := by
  have kind := last_foldl_next .initial tokens
  have brackets := brackets_foldl_next nested .initial
  rw [← h.last_eq] at kind brackets
  rw [Context.initial, Option.or_none] at kind
  cases last
  cases kind
  cases brackets
  rfl

end Lexer

/-! ## Reading in another place -/

/-- The token, further on in a text. -/
def Token.shift (distance : Nat) (token : Token) : Token :=
  { token with offset := token.offset + distance }

theorem Kind.isAmbiguous_of_not_isSignificant {kind : Kind} (h : ¬ kind.isSignificant = true) :
    kind.isAmbiguous = false := by
  cases kind <;> first | rfl | exact absurd rfl h

/-- The kind of the first token that is neither a blank nor a separator. -/
def firstSignificant (tokens : List Token) : Option Kind :=
  ((tokens.filter fun token => token.kind.isSignificant).head?).map Token.kind

theorem firstSignificant_cons (token : Token) (tokens : List Token) :
    firstSignificant (token :: tokens) =
      if token.kind.isSignificant then some token.kind else firstSignificant tokens := by
  unfold firstSignificant
  cases significant : token.kind.isSignificant <;> simp [significant]

namespace Lexer

theorem Cuts.unique {context last last' : Context} {offset : Nat} {cs : List Char}
    {tokens tokens' : List Token} (h : Cuts context offset cs tokens last)
    (h' : Cuts context offset cs tokens' last') : tokens = tokens' := by
  induction h generalizing tokens' with
  | nil => cases h'; rfl
  | cons _ ih =>
    cases h' with
    | cons rest => rw [ih rest]

/-- What is read depends on the open brackets, and of some kinds on what stands before. -/
theorem scan_congr {context context' : Context} (brackets : context.brackets = context'.brackets)
    {c : Char} {cs : List Char}
    (h : context.followsData = context'.followsData ∨ (scan context c cs).1.isAmbiguous = false) :
    scan context c cs = scan context' c cs := by
  obtain same | plain := h
  · simp only [scan, single, same, brackets]
  cases leading : Operator.leading? (c :: cs) with
  | some op =>
    simp only [scan, leading] at plain
    split at plain <;> cases plain
  | none =>
    have same : single context c = single context' c := by
      unfold single
      split
      case h_2 =>
        rw [scan_opening] at plain
        simp only at plain
        split at plain <;> cases plain
      case h_3 => rw [brackets]
      all_goals rfl
    simp only [scan, leading, same]

theorem followsData_next (context : Context) (kind : Kind) : (context.next kind).followsData =
    if kind.isSignificant then kind.isDataSignifier else context.followsData := by
  unfold Context.followsData Context.next
  split <;> rfl

/-- A text is cut in another place and context as it was, if the same brackets are open and an
operand stands before both or before none, or if it does not matter to the first significant token. -/
theorem Cuts.shift {context context' last : Context} {offset : Nat} {cs : List Char}
    {tokens : List Token} (h : Cuts context offset cs tokens last)
    (brackets : context.brackets = context'.brackets)
    (same : context.followsData = context'.followsData ∨
      ∀ kind ∈ firstSignificant tokens, kind.isAmbiguous = false) (distance : Nat) :
    ∃ last', Cuts context' (offset + distance) cs (tokens.map (Token.shift distance)) last' := by
  induction h generalizing context' with
  | nil => exact ⟨_, .nil⟩
  | @cons context last offset c cs tokens cuts ih =>
    have first := firstSignificant_cons (token context offset c cs) tokens
    have scans : scan context c cs = scan context' c cs := by
      refine scan_congr brackets (same.imp_right fun plain => ?_)
      by_cases significant : (scan context c cs).1.isSignificant = true
      · exact plain _ (by rw [first, token, significant]; rfl)
      · exact Kind.isAmbiguous_of_not_isSignificant significant
    have same' : (context.next (token context offset c cs).kind).followsData =
          (context'.next (token context offset c cs).kind).followsData ∨
        ∀ kind ∈ firstSignificant tokens, kind.isAmbiguous = false := by
      rw [followsData_next, followsData_next]
      rw [first] at same
      split
      · exact .inl rfl
      · rename_i blank
        rwa [if_neg blank] at same
    have brackets' : (context.next (token context offset c cs).kind).brackets =
        (context'.next (token context offset c cs).kind).brackets := by
      simp only [Context.next, Context.bracketsAfter, brackets]
    obtain ⟨last', cuts'⟩ := ih brackets' same'
    have shifted : token context' (offset + distance) c cs = (token context offset c cs).shift distance := by
      rw [token, token, ← scans]
      rfl
    have next : Cuts (context'.next (token context' (offset + distance) c cs).kind)
        (offset + distance + (token context' (offset + distance) c cs).text.utf8ByteSize)
        (cs.drop (scan context' c cs).2) (tokens.map (Token.shift distance)) last' := by
      rw [shifted, ← scans, Nat.add_right_comm]
      exact cuts'
    refine ⟨last', ?_⟩
    rw [List.map_cons, ← shifted]
    exact .cons next

/-- A text behind another one and a separator: what its tokens are is decided by the last significant
token before it. -/
theorem unspaced_tokenize_of_cuts {text more : String} (nested : Nested (tokenize text))
    (terminated : ∀ token ∈ (tokenize text).getLast?, token.isTerminated = true)
    {tokens : List Token} {last : Context}
    (cuts : Cuts ⟨lastSignificant (tokenize text), []⟩ (text.utf8ByteSize + 2) more.toList tokens last) :
    unspaced (tokenize (text ++ ";\n" ++ more)) =
      unspaced (tokenize text) ++ ⟨.separator, ";", text.utf8ByteSize⟩ :: unspaced tokens := by
  obtain ⟨middle, first⟩ := cuts_tokenize text
  have size : text.utf8ByteSize + 2 = text.utf8ByteSize + 1 + (String.ofList ['\n']).utf8ByteSize := rfl
  rw [size] at cuts
  obtain ⟨tokens', behind, same⟩ := cuts.blank rfl
  obtain ⟨_, whole⟩ := cuts_tokenize (text ++ ";\n" ++ more)
  have separated : Cuts ⟨lastSignificant (tokenize text), []⟩ text.utf8ByteSize
      (';' :: '\n' :: more.toList) (⟨.separator, ";", text.utf8ByteSize⟩ :: tokens') last := .cons behind
  rw [first.context_eq nested] at first
  obtain ⟨joined, cutsJoined, sameJoined⟩ := Cuts.append rfl first terminated (by
    rw [Nat.zero_add, String.ofList_toList]; exact separated)
  have chars : (text ++ ";\n" ++ more).toList = text.toList ++ ';' :: '\n' :: more.toList := by simp
  rw [chars] at whole
  have kind : (Token.mk .separator ";" text.utf8ByteSize).kind ≠ .whitespace := nofun
  rw [whole.unique cutsJoined, sameJoined, unspaced_cons_of_ne kind, same]

/-- Nothing else than a place differs where the text begins with nothing that an operand before it
changes, or no operand stands before it. -/
theorem unspaced_tokenize_separator {text more : String} (nested : Nested (tokenize text))
    (terminated : ∀ token ∈ (tokenize text).getLast?, token.isTerminated = true)
    (apart : (lastSignificant (tokenize text)).any Kind.isDataSignifier = false ∨
      ∀ kind ∈ firstSignificant (tokenize more), kind.isAmbiguous = false) :
    unspaced (tokenize (text ++ ";\n" ++ more)) =
      unspaced (tokenize text) ++ ⟨.separator, ";", text.utf8ByteSize⟩ ::
        (unspaced (tokenize more)).map (Token.shift (text.utf8ByteSize + 2)) := by
  obtain ⟨_, cuts⟩ := cuts_tokenize more
  have same : Context.initial.followsData = Context.followsData ⟨lastSignificant (tokenize text), []⟩ ∨
      ∀ kind ∈ firstSignificant (tokenize more), kind.isAmbiguous = false := apart.imp_left Eq.symm
  have brackets : Context.initial.brackets = (Context.mk (lastSignificant (tokenize text)) []).brackets := rfl
  obtain ⟨_, shifted⟩ := cuts.shift brackets same (text.utf8ByteSize + 2)
  rw [Nat.zero_add] at shifted
  rw [unspaced_tokenize_of_cuts nested terminated shifted, unspaced, unspaced, List.filter_map]
  rfl

/-! ## Behind an operand -/

/-- The token is of a kind that is read in front of an operand only. -/
def isLeading (token : Token) : Bool :=
  token.kind = .unaryOperator || token.kind = .arrayOpen

/-- The open brackets matter to closing ones only. -/
theorem token_of_followsData {context context' : Context}
    (same : context.followsData = context'.followsData) (offset offset' : Nat) (c : Char)
    (cs : List Char) :
    (scan context' c cs).2 = (scan context c cs).2 ∧
      isLeading (token context' offset' c cs) = isLeading (token context offset c cs) ∧
      (context'.next (token context' offset' c cs).kind).followsData =
        (context.next (token context offset c cs).kind).followsData := by
  by_cases bracket : c = ']'
  · subst bracket
    have closer (context : Context) (offset : Nat) :
        isLeading (token context offset ']' cs) = false ∧
          (context.next (token context offset ']' cs).kind).followsData = true := by
      have kind : (token context offset ']' cs).kind = _ := congrArg Prod.fst (scan_closing context cs)
      rw [isLeading, kind]
      split <;> exact ⟨rfl, rfl⟩
    rw [(closer context offset).1, (closer context offset).2, (closer context' offset').1,
      (closer context' offset').2]
    exact ⟨rfl, rfl, rfl⟩
  · have single : single context c = single context' c := by
      unfold single
      split
      case h_2 => rw [same]
      case h_3 => exact absurd rfl bracket
      all_goals rfl
    have scans : scan context' c cs = scan context c cs := by simp only [scan, same, single]
    have kinds : (token context' offset' c cs).kind = (token context offset c cs).kind :=
      congrArg Prod.fst scans
    rw [isLeading, isLeading, followsData_next, followsData_next, kinds, scans, same]
    exact ⟨rfl, rfl, rfl⟩

/-- As many tokens are read in front of operands only, whatever brackets are open. -/
theorem Cuts.countP_isLeading {context context' last last' : Context} {offset offset' : Nat}
    {cs : List Char} {tokens tokens' : List Token} (h : Cuts context offset cs tokens last)
    (h' : Cuts context' offset' cs tokens' last')
    (same : context.followsData = context'.followsData) :
    tokens'.countP isLeading = tokens.countP isLeading := by
  induction h generalizing context' offset' tokens' with
  | nil => cases h'; rfl
  | @cons context _ offset c cs tokens cuts ih =>
    cases h' with
    | cons cuts' =>
      obtain ⟨length, leading, data⟩ := token_of_followsData same offset offset' c cs
      rw [length] at cuts'
      rw [List.countP_cons, List.countP_cons, ih cuts' data.symm, leading]

/-- Behind an operand a token of an ambiguous kind is not read as in front of one. -/
theorem token_of_isAmbiguous {context context' : Context} (data : context.followsData = false)
    (data' : context'.followsData = true) (offset offset' : Nat) {c : Char} {cs : List Char}
    (ambiguous : (token context offset c cs).kind.isAmbiguous = true) :
    (scan context' c cs).2 = (scan context c cs).2 ∧
      isLeading (token context offset c cs) = true ∧ isLeading (token context' offset' c cs) = false ∧
      (context.next (token context offset c cs).kind).followsData =
        (context'.next (token context' offset' c cs).kind).followsData := by
  obtain ⟨op, leading⟩ | rfl := leading?_or_of_isAmbiguous ambiguous
  · have scans : scan context c cs = (.unaryOperator, op.symbol.toList.length - 1) := by
      simp [scan, leading, data]
    have scans' : scan context' c cs = (.operator, op.symbol.toList.length - 1) := by
      simp [scan, leading, data']
    rw [token, token, scans, scans']
    exact ⟨rfl, rfl, rfl, rfl⟩
  · have scans := scan_opening context cs
    have scans' := scan_opening context' cs
    rw [data] at scans
    rw [data'] at scans'
    rw [token, token, scans, scans']
    exact ⟨rfl, rfl, rfl, rfl⟩

/-- Behind an operand one token less is read as in front of one, if the first significant token is of
an ambiguous kind. -/
theorem Cuts.countP_isLeading_of_isAmbiguous {context context' last last' : Context}
    {offset offset' : Nat} {cs : List Char} {tokens tokens' : List Token}
    (h : Cuts context offset cs tokens last) (h' : Cuts context' offset' cs tokens' last')
    (brackets : context.brackets = context'.brackets) (data : context.followsData = false)
    (data' : context'.followsData = true) {kind : Kind} (first : kind ∈ firstSignificant tokens)
    (ambiguous : kind.isAmbiguous = true) :
    tokens'.countP isLeading + 1 = tokens.countP isLeading := by
  induction h generalizing context' offset' tokens' with
  | nil => cases first
  | @cons context _ offset c cs tokens cuts ih =>
    cases h' with
    | @cons _ _ _ _ _ tokens' cuts' =>
      rw [firstSignificant_cons] at first
      split at first
      · cases first
        obtain ⟨length, leading, leading', same⟩ :=
          token_of_isAmbiguous data data' offset offset' ambiguous
        rw [length] at cuts'
        rw [List.countP_cons, List.countP_cons, cuts.countP_isLeading cuts' same, leading, leading']
        rfl
      · rename_i blank
        have scans := scan_congr brackets (.inr (Kind.isAmbiguous_of_not_isSignificant blank))
        have kinds : (token context' offset' c cs).kind = (token context offset c cs).kind :=
          congrArg Prod.fst scans.symm
        rw [kinds, ← scans] at cuts'
        have next := ih cuts' (by simp only [Context.next, Context.bracketsAfter, brackets])
          (by rw [followsData_next, if_neg blank, data]) (by rw [followsData_next, if_neg blank, data'])
          first
        rw [List.countP_cons, List.countP_cons, ← next, isLeading, isLeading, kinds]
        omega

end Lexer

/-- Blanks do not count. -/
theorem countP_unspaced (tokens : List Token) :
    (unspaced tokens).countP Lexer.isLeading = tokens.countP Lexer.isLeading := by
  have significant (token : Token) (leading : Lexer.isLeading token = true) :
      token.kind ≠ .whitespace := by
    intro blank
    simp [Lexer.isLeading, blank] at leading
  rw [unspaced, List.countP_filter]
  refine List.countP_congr fun token _ => ?_
  rw [Bool.and_eq_true, decide_eq_true_eq]
  exact and_iff_left_of_imp (significant token)

end ExprCompiler
