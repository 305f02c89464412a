import ExprCompiler.Proofs.Postfix.Frame
import ExprCompiler.Proofs.Relocation
import ExprCompiler.Proofs.Token.Continuation

/-!
# Programs one after the other

What the yard does with a program that stands behind another one:

* `Postfix.ofTokens_shift`: further on in a text it has the same postfix form, in its new place;
* `Postfix.ofTokens_unspaced`: blanks do not matter to it;
* `Postfix.ofTokens_append_separator`: the postfix form of two programs with a separator between them
  is that of the first one, then that of the second one;
* `Postfix.countP_isLeading`: no operation with an only operand and no array gets lost or is made up.
-/

namespace ExprCompiler

namespace Postfix

/-! ## Tokens in other places -/

/-- The postfix form of tokens further on in a text. -/
theorem ofTokens_shift (distance : Nat) {tokens : List Token} {result : Postfix}
    (h : ofTokens tokens = .ok result) :
    ofTokens (tokens.map (Token.shift distance)) = .ok (result.relocate (· + distance)) := by
  have moved := ofTokens_relocate (· + distance) tokens
  rw [h] at moved
  exact moved

/-! ## Blanks and separators -/

theorem step_of_whitespace {token : Token} (kind : token.kind = .whitespace) (shunting : Shunting) :
    shunting.step token = .ok shunting := by
  have step : shunting.yard.step token = .ok { yard := shunting.yard } := by
    rw [Yard.step_eq_ok_iff]
    exact ⟨_, .blank kind, by simp [Yard.remember, kind, Kind.isSignificant]⟩
  have same : (⟨shunting.yard, shunting.items ++ ([] : List Item),
      shunting.diagnostics ++ ([] : List Diagnostic)⟩ : Shunting) = shunting := by simp
  rw [Shunting.step, step]
  exact congrArg Except.ok same

/-- Blanks do not matter. -/
theorem ofTokens_unspaced (tokens : List Token) : ofTokens (unspaced tokens) = ofTokens tokens := by
  have run (shunting : Shunting) :
      (unspaced tokens).foldlM Shunting.step shunting = tokens.foldlM Shunting.step shunting := by
    induction tokens generalizing shunting with
    | nil => rfl
    | cons token tokens ih =>
      by_cases blank : token.kind = .whitespace
      · rw [unspaced_cons_whitespace blank, ih, List.foldlM_cons, step_of_whitespace blank]
        rfl
      · rw [unspaced, List.filter_cons_of_pos (by simpa using blank), List.foldlM_cons, List.foldlM_cons]
        exact bind_congr fun next => ih next
  rw [ofTokens, ofTokens, run]

/-- The postfix form of two programs with a separator between them is that of the first one, then that
of the second one. -/
theorem ofTokens_append_separator {xs ys : List Token} {separator : Token} {first second : Postfix}
    (kind : separator.kind = .separator) (hx : ofTokens xs = .ok first) (hy : ofTokens ys = .ok second) :
    ofTokens (xs ++ separator :: ys) =
      .ok ⟨first.items ++ second.items, first.diagnostics ++ second.diagnostics⟩ := by
  obtain ⟨move, runs, pending, rfl⟩ := ofTokens_eq_ok_iff_runs.1 hx
  obtain ⟨move', runs', pending', rfl⟩ := ofTokens_eq_ok_iff_runs.1 hy
  have reads : move.yard.Reads separator _ :=
    .separator kind (List.append_nil _).symm pending nofun
  have step := Yard.step_eq_ok_iff.2 ⟨_, reads, rfl⟩
  -- Nothing waits behind the separator, so the second program is read as from the beginning.
  have bears (before : List Token) (token : Token) (after : List Token)
      (_ : ys = before ++ token :: after) (_ : openAfter before = []) :
      Yard.Bears ({ move.yard with operators := [] }.remember separator.kind) token := by
    constructor <;> rw [Yard.remember_operators]
    · exact fun _ => nofun
    · exact fun _ _ _ => nofun
  obtain ⟨move'', runs'', stacked⟩ := runs'.over bears
  have operators : move''.yard.operators = move'.yard.operators := by
    rw [stacked.yard.operators, Yard.remember_operators, List.append_nil]
  refine ofTokens_eq_ok_iff_runs.2 ⟨_, runs.append (.cons step runs''), ?_, ?_⟩
  · rw [operators]
    exact pending'
  · simp [stacked.items, stacked.diagnostics, operators]

end Postfix

/-! ## Counting -/

/-- The token stands before its only operand. -/
def Token.isUnary (token : Token) : Bool :=
  token.kind = .unaryOperator

/-- The token is, or lets leave, what stands for an operation with an only operand or for an array. -/
def Token.isLeaving (token : Token) : Bool :=
  token.kind = .unaryOperator || token.kind = .arrayClose

/-- The item stands for an operation with an only operand, or for an array. -/
def Item.isLeading : Item → Bool
  | .token t => t.isUnary
  | .arity .array _ => true
  | .arity .call _ => false

theorem Item.isLeading_comp_token : Item.isLeading ∘ Item.token = Token.isUnary := rfl

namespace Yard

/-- No operator gets lost. -/
theorem Reads.countP {yard : Yard} {token : Token} {move : Move} (h : yard.Reads token move) :
    move.items.countP Item.isLeading + move.yard.operators.countP Token.isUnary =
      yard.operators.countP Token.isUnary + if token.isLeaving then 1 else 0 := by
  have opener {top : Token} {delimiter : Delimiter} (opens : top.kind.opens? = some delimiter) :
      top.isUnary = false := by
    rw [Token.isUnary, Kind.opens?_eq_some_iff.1 opens]
    cases delimiter <;> rfl
  cases h with
  | data data =>
    have kind : token.isUnary = false ∧ token.isLeaving = false := by
      cases kind : token.kind <;> simp [kind, Kind.isData, Token.isUnary, Token.isLeaving] at data ⊢
    simp [Item.isLeading, kind]
  | blank kind | other kind => simp [Token.isLeaving, kind]
  | unary kind | parenOpen kind => simp [Token.isLeaving, Token.isUnary, kind]
  | lambdaOpen kind => simp [Token.isLeaving, Token.isUnary, Item.isLeading, kind]
  | bracketOpen gathering kind =>
    cases gathering <;> simp [Token.isLeaving, Token.isUnary, kind, Gathering.delimiter, Delimiter.opener]
  | operator kind =>
    have leaving : token.isLeaving = false ∧ token.isUnary = false := by
      simp [Token.isLeaving, Token.isUnary, kind]
    simp only [addOperator]
    split
    · rename_i binding _
      have split : yard.operators.countP Token.isUnary =
          (yard.operators.takeWhile (yields binding.level)).countP Token.isUnary +
            (yard.operators.dropWhile (yields binding.level)).countP Token.isUnary := by
        rw [← List.countP_append, List.takeWhile_append_dropWhile]
      simp [Item.isLeading_comp_token, leaving, split]
    · simp [leaving]
  | separator kind split | comma kind _ _ split =>
    simp [Item.isLeading_comp_token, split, Token.isLeaving, kind]
  | parenClose kind split _ opens =>
    simp [Item.isLeading_comp_token, split, Token.isLeaving, kind, opener opens]
  | lambdaClose kind split _ opens =>
    have unary : token.isUnary = false := by simp [Token.isUnary, kind]
    simp [Item.isLeading_comp_token, split, Token.isLeaving, kind, opener opens, Item.isLeading, unary]
  | bracketClose gathering kind _ split _ opens =>
    cases gathering <;>
    simp [Item.isLeading_comp_token, split, Token.isLeaving, kind, opener opens, Item.isLeading,
      Gathering.closer]
    omega

theorem Runs.countP {yard : Yard} {tokens : List Token} {move : Move} (h : yard.Runs tokens move) :
    move.items.countP Item.isLeading + move.yard.operators.countP Token.isUnary =
      yard.operators.countP Token.isUnary + tokens.countP Token.isLeaving := by
  induction h with
  | nil => simp
  | cons step _ ih =>
    obtain ⟨reading, reads, rfl⟩ := step_eq_ok_iff.1 step
    have head := reads.countP
    rw [remember_operators] at ih
    rw [List.countP_append, List.countP_cons]
    simp only at ih ⊢
    omega

end Yard

/-- There are as many closing as opening sides of arrays. -/
theorem Nested.countP_isLeaving {tokens : List Token} (h : Nested tokens) :
    tokens.countP Token.isLeaving = tokens.countP Lexer.isLeading := by
  induction h with
  | nil => rfl
  | @plain token tokens opens closes _ ih =>
    have same : token.isLeaving = Lexer.isLeading token := by
      cases kind : token.kind <;>
        simp [Token.isLeaving, Lexer.isLeading, kind, Kind.opens?, Kind.closes?] at opens closes ⊢
    rw [List.countP_cons, List.countP_cons, ih, same]
  | @pair opening closing delimiter inner rest opens closes _ _ ihi ihr =>
    have opener := Kind.opens?_eq_some_iff.1 opens
    have sides : closing.isLeaving = Lexer.isLeading opening ∧ opening.isLeaving = false ∧
        Lexer.isLeading closing = false := by
      cases kind : closing.kind <;> rw [kind] at closes <;> cases closes <;>
        simp [Token.isLeaving, Lexer.isLeading, kind, opener, Delimiter.opener]
    simp only [List.countP_cons, List.countP_append, ihi, ihr, sides]
    simp
    omega

/-- A postfix form has one item for each token that is read in front of an operand only. -/
theorem Postfix.countP_isLeading {tokens : List Token} {result : Postfix}
    (h : Postfix.ofTokens tokens = .ok result) :
    result.items.countP Item.isLeading = tokens.countP Lexer.isLeading := by
  rw [← (nested_of_ofTokens h).1.countP_isLeaving]
  obtain ⟨move, runs, -, rfl⟩ := ofTokens_eq_ok_iff_runs.1 h
  have count := runs.countP
  rw [Yard.empty, List.countP_nil, Nat.zero_add] at count
  rw [List.countP_append, List.countP_map, Item.isLeading_comp_token, count]

end ExprCompiler
